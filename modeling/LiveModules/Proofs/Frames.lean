import LiveModules.Proofs.Asking

/-!
# What runs above a call

A call that waits is a frame on the stack. What runs above it leaves the frame and all below it
alone, until values or an error come to it (`Over.step`): values and errors take one frame each, and
statements, which may leave more, leave no frame below the activation of their own function. So all
there is to know of a stack is whether there is such an activation (`Above`).
-/

namespace LiveModules.Script

/-- A frame that is no call. -/
def Frame.IsPlain : Frame → Prop
  | .activation _ | .builtin .. => False
  | _ => True

/-- What only a function of a script does. -/
def Control.IsBody : Control → Prop
  | .call .. | .give _ | .raise _ => False
  | _ => True

/-- What comes to the frame on top. -/
def Control.IsReply : Control → Prop
  | .give _ | .raise _ => True
  | _ => False

/-- The stack grew out of `T`; `inside` tells whether by a call of a script function. -/
inductive Above (T : List Frame) : (inside : Bool) → List Frame → Prop
  | here : Above T false T
  | builtin {b : Bool} {stack : List Frame} (p : Pending) (site : Site) : Above T b stack →
      Above T b (.builtin p site :: stack)
  | activation {b : Bool} {stack : List Frame} (pos : Option Pos) : Above T b stack →
      Above T true (.activation pos :: stack)
  | plain {stack : List Frame} {f : Frame} : f.IsPlain → Above T true stack →
      Above T true (f :: stack)

/-- A function of a script runs above `T`, and `rs` was asked for. -/
structure Inside (T : List Frame) (rs : Array (Request Value)) (m : Machine) : Prop where
  above : Above T true m.stack
  requests : m.requests = rs

/-- Something runs above `T`, and `rs` was asked for, and maybe more. -/
structure Over (T : List Frame) (rs : Array (Request Value)) (m : Machine) : Prop where
  above : ∃ inside, Above T inside m.stack ∧ (m.control.IsBody → inside = true)
  asked : rs.toList <+: m.requests.toList

namespace Above

variable {T stack : List Frame} {b : Bool} {f : Frame} {pos : Option Pos}

theorem suffix (h : Above T b stack) : T <:+ stack := by
  induction h with
  | here => exact List.suffix_refl T
  | builtin _ _ _ ih | activation _ _ ih | plain _ _ ih => exact ih.trans (List.suffix_cons _ _)

/-- Inside of a function, a frame that is no activation may go. -/
theorem tail (h : Above T true (f :: stack)) (hf : ∀ pos, f ≠ .activation pos) :
    Above T true stack := by
  cases h with
  | builtin _ _ h => exact h
  | activation pos h => exact absurd rfl (hf pos)
  | plain _ h => exact h

theorem of_activation (h : Above T true (.activation pos :: stack)) : ∃ b, Above T b stack := by
  cases h with
  | activation _ h => exact ⟨_, h⟩
  | plain hf _ => exact hf.elim

end Above

/-! ## Expressions and statements -/

namespace Inside

open Machine

variable {T : List Frame} {rs : Array (Request Value)} {m : Machine} {f : Frame}

theorem toOver (h : Inside T rs m) : Over T rs m :=
  ⟨⟨true, h.above, fun _ => rfl⟩, h.requests ▸ List.prefix_refl _⟩

theorem go (h : Inside T rs m) (c : Control) : Inside T rs (m.go c) := ⟨h.above, h.requests⟩

theorem push (h : Inside T rs m) (hf : f.IsPlain) : Inside T rs (m.push f) :=
  ⟨.plain hf h.above, h.requests⟩

theorem await (h : Inside T rs m) (hf : f.IsPlain) (e : Expr) (env : Env) :
    Inside T rs (m.await f e env) :=
  ⟨.plain hf h.above, h.requests⟩

/-- Nothing is waited for meanwhile. -/
theorem set (h : Inside T rs m) (c : Control) (heap : Heap) (depth : Nat) :
    Inside T rs ⟨c, m.stack, heap, m.requests, depth⟩ := ⟨h.above, h.requests⟩

theorem reply (h : Inside T rs m) (r : Reply) (pos : Pos) (name : String)
    (a b : Value × Origin) : Inside T rs (m.reply r pos name a b) := by
  cases r with
  | call f args | test f args negated => exact (h.push (by trivial)).go _
  | _ => exact h.go _

theorem binary (h : Inside T rs m) (op : BinOp) (a b : Value × Origin) (pos : Pos) :
    Inside T rs (m.binary op a b pos) := h.reply ..

theorem index (h : Inside T rs m) (object key : Value) (origin : Origin) (pos : Pos) :
    Inside T rs (m.index object key origin pos) := h.reply ..

theorem use (h : Inside T rs m) (vs : List Value) (u : Use) : Inside T rs (m.use vs u) := by
  cases u with
  | results | call | assign => exact h.go _
  | declare count p => exact h.set _ _ _
  | count block env pos =>
    unfold Machine.use
    dsimp only
    split
    · exact h.go _
    · exact (h.push (f := .countBody _ _ _) trivial).set _ _ _
    · exact h.go _
    · exact h.go _
  | each count block env pos => exact (h.push (by trivial)).go _

theorem evalList (h : Inside T rs m) (done : List Value) (todo : List Expr) (env : Env) (u : Use) :
    Inside T rs (m.evalList done todo env u) := by
  cases todo with
  | nil => exact h.use _ u
  | cons e rest => exact h.await (by trivial) _ _

theorem fillItems (h : Inside T rs m) (table : Nat) (done : List Value) (todo : List Item)
    (env : Env) : Inside T rs (m.fillItems table done todo env) := by
  rcases todo with _ | ⟨_ | _, rest⟩
  · exact h.set _ _ _
  · exact h.await (by trivial) _ _
  · exact h.await (by trivial) _ _

theorem eval (h : Inside T rs m) (e : Expr) (env : Env) : Inside T rs (m.eval e env) := by
  cases e with
  | nil | bool | num | str | varargs | var | env => exact h.go _
  | function body => exact h.set _ _ _
  | global name pos => exact h.index ..
  | table items => exact (h.set m.control _ m.depth).fillItems ..
  | _ => exact h.await (by trivial) _ _

theorem evalTargets (h : Inside T rs m) (done : List Place) (todo values : List Expr) (env : Env) :
    Inside T rs (m.evalTargets done todo values env) := by
  induction todo generalizing done with
  | nil => exact h.evalList ..
  | cons e rest ih =>
    cases e with
    | index o k pos => exact h.await (by trivial) _ _
    | _ => exact ih _

theorem store (h : Inside T rs m) (todo : List (Place × Value)) : Inside T rs (m.store todo) := by
  rcases todo with _ | ⟨⟨_ | ⟨object, k, origin, pos⟩, v⟩, rest⟩
  · exact h.go _
  · exact h.set _ _ _
  · unfold Machine.store
    dsimp only
    split
    · exact h.set _ _ _
    · exact (h.push (by trivial)).go _
    · exact h.go _
    · exact h.go _

theorem branch (h : Inside T rs m) (cases : List (Expr × List Stmt)) (otherwise : List Stmt)
    (env : Env) : Inside T rs (m.branch cases otherwise env) := by
  rcases cases with _ | ⟨⟨condition, block⟩, rest⟩
  · exact h.go _
  · exact h.await (by trivial) _ _

theorem statement (h : Inside T rs m) (s : Stmt) (p : Point) :
    Inside T rs (m.statement s p) := by
  have hp : Inside T rs (m.push (.point p)) := h.push trivial
  unfold Machine.statement
  cases s with
  | declare count values => exact h.evalList ..
  | declareFunction body => exact h.set _ _ _
  | assign targets values => exact hp.evalTargets ..
  | evaluate e => exact h.await (by trivial) _ _
  | scope block => exact hp.go _
  | whileLoop condition block => exact hp.await (by trivial) _ _
  | branch cases otherwise => exact hp.branch ..
  | countLoop | eachLoop => exact hp.evalList ..
  | leave values => exact h.evalList ..
  | leaveCall | leaveMethod => exact h.await (by trivial) _ _
  | stop | label => exact h.go _
  | jump name pos => exact hp.go _

theorem run (h : Inside T rs m) (p : Point) : Inside T rs (m.run p) := by
  unfold Machine.run
  split
  · exact h.go _
  · exact h.statement ..

end Inside

/-! ## Ways out of statements -/

section Ways

open Machine

variable {T : List Frame} {rs : Array (Request Value)} {m : Machine} {inside : Bool}

/-- What is left when a frame is taken that is no activation. -/
theorem Inside.below {f : Frame} {stack : List Frame} (h : Inside T rs m)
    (hs : m.stack = f :: stack) (hf : ∀ pos, f ≠ .activation pos) : Above T true stack :=
  (hs ▸ h.above).tail hf

theorem Inside.jump (h : Inside T rs m) (name : ByteArray) : Inside T rs (m.jump name) := by
  unfold Machine.jump
  split
  · exact h.go _
  · exact h.go _
  · rename_i hs
    split
    · exact ⟨h.below hs nofun, h.requests⟩
    · exact ⟨h.below hs nofun, h.requests⟩
  · rename_i hf _ hs
    exact ⟨h.below hs hf, h.requests⟩

theorem Inside.stop (h : Inside T rs m) : Inside T rs m.stop := by
  unfold Machine.stop
  split
  all_goals try exact h.go _
  all_goals rename_i hs
  · exact ⟨h.below hs nofun, h.requests⟩
  · exact ⟨h.below hs nofun, h.requests⟩
  · exact ⟨h.below hs nofun, h.requests⟩
  · rename_i hf
    exact ⟨h.below hs hf, h.requests⟩

theorem Inside.next (h : Inside T rs m) : Inside T rs m.next := by
  unfold Machine.next
  split
  · rename_i hs
    exact ⟨h.below hs nofun, h.requests⟩
  · rename_i hs
    exact ⟨.plain trivial (h.below hs nofun), h.requests⟩
  · rename_i hs
    have hbelow := h.below hs nofun
    split
    · exact ⟨hbelow, h.requests⟩
    · exact ⟨.plain trivial hbelow, h.requests⟩
  · rename_i hs
    exact ⟨.plain trivial (h.below hs nofun), h.requests⟩
  · exact h.go _

/-- To leave takes frames up to an activation, with which it comes to its end. -/
theorem Inside.leave (h : Inside T rs m) (vs : List Value) : Over T rs (m.leave vs) := by
  unfold Machine.leave
  split
  · exact (h.go _).toOver
  · rename_i hs
    obtain ⟨b, hb⟩ := (hs ▸ h.above).of_activation
    exact ⟨⟨b, hb, nofun⟩, h.requests ▸ List.prefix_refl _⟩
  · rename_i hf hs
    exact Inside.toOver ⟨h.below hs hf, h.requests⟩

end Ways

/-! ## Calls -/

theorem Complaint.control_not_body (c : Complaint) (f : Native) (site : Site) :
    ¬ (c.control f site).IsBody := by
  cases c with
  | argument n what =>
    unfold Complaint.control
    dsimp only
    split <;> exact id
  | _ => exact id

namespace Over

open Machine

variable {T : List Frame} {rs : Array (Request Value)} {m : Machine} {inside : Bool}
  (h : Above T inside m.stack) (hm : m.requests = rs)

include h hm

/-- What goes on with values, an error or a call needs no function around it. -/
theorem set {c : Control} (hc : ¬ c.IsBody) (heap : Heap) (depth : Nat) :
    Over T rs ⟨c, m.stack, heap, m.requests, depth⟩ :=
  ⟨⟨inside, h, fun hb => absurd hb hc⟩, hm ▸ List.prefix_refl _⟩

theorem go {c : Control} (hc : ¬ c.IsBody) : Over T rs (m.go c) := set h hm hc _ _

theorem callBack (p : Pending) (site : Site) (f : Value) (args : List Value) :
    Over T rs (m.callBack p site f args) :=
  ⟨⟨inside, .builtin p site h, nofun⟩, hm ▸ List.prefix_refl _⟩

theorem enter (id : Nat) (args : List Value) (pos : Option Pos) :
    Over T rs (m.enter id args pos) := by
  unfold Machine.enter
  dsimp only
  split
  · exact set h hm (by exact nofun) _ _
  · exact Inside.toOver ⟨.activation pos h, hm⟩

theorem answered (f : Native) (site : Site) (a : Answered) : Over T rs (m.answered f site a) := by
  rcases a with c | ⟨vs, change⟩
  · exact go h hm (c.control_not_body f site)
  · exact set h hm (by exact nofun) _ _

theorem raiseAt (v : Value) (level : Int) (site : Site) : Over T rs (m.raiseAt v level site) := by
  unfold Machine.raiseAt
  split
  · split
    · exact go h hm nofun
    · exact go h hm nofun
  · exact go h hm nofun

theorem loadText (text : List Char) (name : ByteArray) (args : List Value) :
    Over T rs (m.loadText text name args) := by
  unfold Machine.loadText
  dsimp only
  split
  · exact go h hm nofun
  · exact set h hm (by exact nofun) _ _

theorem load (args : List Value) (site : Site) : Over T rs (m.load args site) := by
  unfold Machine.load
  dsimp only
  split
  · split
    · exact loadText h hm ..
    · exact go h hm (Complaint.control_not_body _ _ _)
  · split
    · exact callBack h hm ..
    · exact go h hm (Complaint.control_not_body _ _ _)

theorem ask (c : Capability) (args : List Value) : Over T rs (m.ask c args) := by
  have hasked := ask_grows c m.heap args m.requests
  rw [hm] at hasked
  unfold Machine.ask
  dsimp only
  split <;> rename_i hrun <;> rw [hm] at hrun <;> rw [hrun] at hasked <;>
    exact ⟨⟨inside, h, nofun⟩, hasked⟩

theorem logParts (display : Value) (done : List String) (todo : List Value) (site : Site) :
    Over T rs (m.logParts display done todo site) := by
  cases todo with
  | nil => exact ask h hm ..
  | cons v rest => exact callBack h hm ..

theorem describe (error : Value) (site : Site) : Over T rs (m.describe error site) := by
  unfold Machine.describe
  split
  · exact go h hm nofun
  · exact callBack h hm ..

theorem logWith (found : Value) (args : List Value) (site : Site) :
    Over T rs (m.logWith found args site) := by
  unfold Machine.logWith
  split
  · exact go h hm nofun
  · exact logParts h hm ..

theorem log (args : List Value) (site : Site) : Over T rs (m.log args site) := by
  unfold Machine.log
  split
  · exact logWith h hm ..
  · exact callBack (m := m.pushCall _) (.builtin _ _ h) hm ..
  · exact describe h hm ..
  · exact describe h hm ..

theorem compareItem (s : Sorting) (site : Site) : Over T rs (m.compareItem s site) := by
  unfold Machine.compareItem
  dsimp only
  split
  · split
    · exact ⟨⟨inside, .builtin _ _ h, nofun⟩, hm ▸ List.prefix_refl _⟩
    · exact callBack h hm ..
    · exact go h hm nofun
    · exact go h hm nofun
  · exact callBack h hm ..

theorem sort (s : Sorting) (site : Site) : Over T rs (m.sort s site) := by
  unfold Machine.sort
  split
  · exact compareItem h hm ..
  · dsimp only
    split
    · exact set h hm (by exact nofun) _ _
    · exact compareItem h hm ..

theorem startSort (args : List Value) (site : Site) : Over T rs (m.startSort args site) := by
  unfold Machine.startSort
  split
  · exact go h hm (Complaint.control_not_body _ _ _)
  · dsimp only
    split
    · exact go h hm nofun
    · split
      · exact go h hm (Complaint.control_not_body _ _ _)
      · split
        · exact set h hm (by exact nofun) _ _
        · exact compareItem h hm ..
        · exact go h hm nofun

theorem format (args : List Value) (site : Site) : Over T rs (m.format args site) := by
  unfold Machine.format
  split
  · exact callBack h hm ..
  · exact answered h hm ..

theorem nextElement (args : List Value) (site : Site) : Over T rs (m.nextElement args site) := by
  unfold Machine.nextElement
  split
  · exact go h hm (Complaint.control_not_body _ _ _)
  · split
    all_goals first
      | exact callBack h hm ..
      | exact go h hm nofun

theorem assert (args : List Value) (site : Site) : Over T rs (m.assert args site) := by
  cases args with
  | nil => exact go h hm (Complaint.control_not_body _ _ _)
  | cons v rest =>
    unfold Machine.assert
    dsimp only
    split
    · exact go h hm nofun
    · exact raiseAt h hm ..

theorem callNative (f : Native) (args : List Value) (site : Site) :
    Over T rs (m.callNative f args site) := by
  unfold Machine.callNative
  split
  · exact assert h hm ..
  · split
    · exact raiseAt h hm ..
    · exact go h hm (Complaint.control_not_body _ _ _)
  · exact go h hm nofun
  · exact callBack h hm ..
  · exact callBack h hm ..
  · exact go h hm nofun
  · split
    · exact answered h hm ..
    · exact callBack h hm ..
  · split
    · exact answered h hm ..
    · exact callBack h hm ..
  · exact format h hm ..
  · exact nextElement h hm ..
  · exact startSort h hm ..
  · exact load h hm ..
  · exact answered h hm ..

theorem call (f : Value) (args : List Value) (site : Site) : Over T rs (m.call f args site) := by
  unfold Machine.call
  split
  · exact go h hm nofun
  split
  · exact enter h hm ..
  · exact callNative h hm ..
  · exact log h hm ..
  · exact ask h hm ..
  · split
    · exact go h hm nofun
    · exact go h hm nofun

theorem resume (p : Pending) (site : Site) (vs : List Value) :
    Over T rs (m.resume p site vs) := by
  unfold Machine.resume
  dsimp only
  split
  · exact go h hm nofun
  · exact go h hm nofun
  · split
    · exact go h hm nofun
    · exact go h hm nofun
  · split
    · exact go h hm nofun
    · exact go h hm nofun
  · exact logWith h hm ..
  · split
    · exact logParts h hm ..
    · exact go h hm nofun
  · exact go h hm nofun
  · exact go h hm nofun
  · exact go h hm nofun
  · exact go h hm nofun
  · split
    · exact loadText h hm ..
    · exact callBack h hm ..
  · exact loadText h hm ..
  · exact go h hm nofun
  · exact sort h hm ..

end Over

/-! ## Steps -/

section Steps

open Machine

variable {T stack : List Frame} {rs : Array (Request Value)} {m : Machine} {inside : Bool}

theorem Above.of_belowActivation {pos : Option Pos} : ∀ {st : List Frame}, Above T true st →
    belowActivation st = some (pos, stack) → ∃ b, Above T b stack
  | f :: st, h, hb => by
    cases h with
    | builtin p site h => exact of_belowActivation h hb
    | activation pos' h =>
      cases hb
      exact ⟨_, h⟩
    | plain hf h =>
      cases f with
      | activation | builtin => exact hf.elim
      | _ => exact of_belowActivation h hb

theorem Inside.tailCall (h : Inside T rs m) (f : Value) (args : List Value) (site : Site) :
    Over T rs (m.tailCall f args site) := by
  unfold Machine.tailCall
  split
  · rename_i id pos stack hb
    obtain ⟨b, hb⟩ := h.above.of_belowActivation hb
    exact Over.enter (m := ⟨m.control, stack, m.heap, m.requests, m.depth - 1⟩) hb h.requests ..
  · exact ((h.push (by trivial)).go _).toOver

/-- Values come to a frame that is no call. -/
theorem Inside.give {f : Frame} (h : Inside T rs { m with stack }) (hf : f.IsPlain)
    (hs : m.stack = f :: stack) (vs : List Value) : Inside T rs (m.give vs) := by
  unfold Machine.give
  rw [hs]
  cases f with
  | activation | builtin => exact hf.elim
  | one | truth | both | either | store | point | leaving | whileBody | countBody | eachBody =>
    exact h.go _
  | list done todo env u =>
    cases todo with
    | nil => exact h.use ..
    | cons => exact h.evalList ..
  | callee | method => exact h.evalList ..
  | receiver => exact (h.push (by trivial)).index ..
  | object | left | itemKey | targetObject => exact h.await (by trivial) _ _
  | key => exact h.index ..
  | right => exact h.binary ..
  | operand => exact h.reply ..
  | items table done todo env =>
    cases todo with
    | nil => exact h.set _ _ _
    | cons => exact h.fillItems ..
  | itemValue =>
    dsimp only
    split
    · exact (h.set m.control _ m.depth).fillItems ..
    · exact h.go _
  | targetKey => exact h.evalTargets ..
  | branch =>
    dsimp only
    split
    · exact h.go _
    · exact h.branch ..
  | whileTest =>
    dsimp only
    split
    · exact (h.push (by trivial)).go _
    · exact h.go _
  | eachCall =>
    dsimp only
    split
    · exact h.go _
    · exact ⟨.plain trivial h.above, h.requests⟩

theorem Over.give (h : Above T inside m.stack) (hm : m.requests = rs) (hne : m.stack ≠ T)
    (vs : List Value) : Over T rs (m.give vs) := by
  rcases hs : m.stack with _ | ⟨f, stack⟩
  · rw [hs] at h hne
    cases h
    exact absurd rfl hne
  have hgive := @Inside.give T stack rs m f
  rw [hs] at h hne
  cases h with
  | here => exact absurd rfl hne
  | plain hf h => exact (hgive ⟨h, hm⟩ hf hs vs).toOver
  | builtin p site h =>
    unfold Machine.give
    rw [hs]
    exact Over.resume (m := ⟨m.control, stack, m.heap, m.requests, m.depth - 1⟩) h hm ..
  | activation pos h =>
    unfold Machine.give
    rw [hs]
    exact Over.go (m := ⟨m.control, stack, m.heap, m.requests, m.depth - 1⟩) h hm nofun

/-- An error takes a frame, which may go on instead. -/
theorem Over.raise (h : Above T inside m.stack) (hm : m.requests = rs) (hne : m.stack ≠ T)
    {error : Value} (hc : m.control = .raise error) : Over T rs (m.raise error) := by
  have hbody : ¬ m.control.IsBody := by rw [hc]; exact id
  rcases hs : m.stack with _ | ⟨f, stack⟩
  · rw [hs] at h hne
    cases h
    exact absurd rfl hne
  unfold Machine.raise
  rw [hs] at h hne ⊢
  dsimp only
  cases h with
  | here => exact absurd rfl hne
  | plain hf h =>
    cases f with
    | activation | builtin => exact hf.elim
    | _ => exact Over.set (m := { m with stack }) h hm hbody _ _
  | activation pos h => exact Over.set (m := { m with stack }) h hm hbody _ _
  | builtin p site h =>
    let n : Machine := ⟨m.control, stack, m.heap, m.requests, m.depth - 1⟩
    have hn : Above T inside n.stack := h
    dsimp only
    split
    all_goals first
      | exact Over.set hn hm hbody _ _
      | exact Over.callBack hn hm ..
      | exact Over.describe hn hm ..
      | exact Over.go hn hm nofun

/-- Nothing but values and errors gets past the frames that were there. -/
theorem Over.step (h : Over T rs m) (hne : m.control.IsReply → m.stack ≠ T) :
    Over T m.requests m.step := by
  obtain ⟨inside, habove, hinside⟩ := h.above
  -- what is evaluated belongs to a function, whose frame keeps it from those below
  have hin (hc : m.control.IsBody) : Inside T m.requests m := ⟨hinside hc ▸ habove, rfl⟩
  unfold Machine.step
  split <;> rename_i hc <;> rw [hc] at hne hin
  · exact ((hin trivial).eval ..).toOver
  · exact Over.give habove rfl (hne trivial) _
  · exact ((hin trivial).run _).toOver
  · exact (hin trivial).next.toOver
  · exact ((hin trivial).store _).toOver
  · exact Over.call habove rfl ..
  · exact (hin trivial).tailCall ..
  · exact Over.raise habove rfl (hne trivial) hc
  · exact (hin trivial).leave _
  · exact (hin trivial).stop.toOver
  · exact ((hin trivial).jump _).toOver

end Steps

end LiveModules.Script
