import LiveModules.Proofs.Encoding
import LiveModules.Proofs.Frames
import LiveModules.Proofs.Globals
import LiveModules.Proofs.Results
import LiveModules.Script.Sandbox
import Mathlib.Data.List.Forall2

/-!
# Calls of capabilities

All calls of capabilities but those of `log` are over in one step (`step_capability`). `log` looks
up what displays its arguments and has it display them, one after the other, and scripts may have a
say in either. Its own steps and those of what it calls are told apart in the course of the call
(`Course`), and at every point of it what was asked for was asked for by others (`Course.phase`). If
scripts have no say, nobody asks for anything meanwhile (`Course.plain`). A sandbox sees every call
to the end of its course, unless its steps run out (`finish_call`).
-/

namespace LiveModules

namespace Script

open Capability

section Lines

theorem toText_str {b : ByteArray} {text : String} :
    toText (.str b) = .ok text ↔ Text.ofUtf8 b = .ok text := by
  unfold toText
  dsimp only
  cases Text.ofUtf8 b with
  | error f => exact ⟨nofun, nofun⟩
  | ok s => exact ⟨fun h => by cases h; rfl, fun h => by cases h; rfl⟩

theorem toText_text (s : String) : toText (.text s) = .ok s :=
  toText_str.2 (Text.ofUtf8_toUTF8 s)

theorem logParts_nil (n : Machine) (display : Value) (done : List String) (site : Site) :
    n.logParts display done [] site =
      ⟨.give [], n.stack, { n.heap with timeouts := n.heap.timeouts + 1 },
        n.requests.push (.log (" ".intercalate done.reverse)), n.depth⟩ := by
  have hline : (Capability.ask .log n.heap [.text (" ".intercalate done.reverse)]).run n.requests =
      (.ok [], n.requests.push (.log (" ".intercalate done.reverse))) := by
    simp only [Capability.ask, List.headD_cons, toText_text]
    rfl
  rw [Machine.logParts, Machine.ask, hline]

end Lines

/-! ## The course of a call -/

section Courses

open Machine

/-- What a step asks for. -/
def Machine.asked (m : Machine) : List (Request Value) :=
  m.step.requests.toList.drop m.requests.size

/-- Something comes to a frame that stands on `stack`. -/
def Machine.BackAbove (m : Machine) (stack : List Frame) : Prop :=
  m.control.IsReply ∧ ∃ f, m.stack = f :: stack

/-- How the call goes that `m₀` makes, until the stack is as it was. `talk` is what passes between
the call and what it calls, and `rs` what is asked for by what it calls. -/
inductive Course (m₀ : Machine) : List (Request Value) → List Control → Machine → Prop
  | called : Course m₀ [] [m₀.step.control] m₀.step
  /-- The call itself takes a step. -/
  | own {rs : List (Request Value)} {talk : List Control} {m : Machine} : Course m₀ rs talk m →
      m.BackAbove m₀.stack → Course m₀ rs (talk ++ [m.control, m.step.control]) m.step
  | other {rs : List (Request Value)} {talk : List Control} {m : Machine} : Course m₀ rs talk m →
      m.stack ≠ m₀.stack → ¬ m.BackAbove m₀.stack → Course m₀ (rs ++ m.asked) talk m.step
  | interrupted {rs : List (Request Value)} {talk : List Control} {m : Machine} (text : String) :
      Course m₀ rs talk m → m.stack ≠ m₀.stack →
      Course m₀ rs talk (m.go (.raise (.failure text)))

variable {m₀ m n : Machine} {rs : List (Request Value)} {p : Pending} {site : Site}

theorem step_requests {T : List Frame} {rs' : Array (Request Value)} (h : Over T rs' m)
    (hne : m.control.IsReply → m.stack ≠ T) :
    m.step.requests.toList = m.requests.toList ++ m.asked := by
  obtain ⟨new, hnew⟩ := (h.step hne).asked
  rw [asked, ← hnew, ← Array.length_toList, List.drop_left]

theorem Machine.asked_eq_nil (h : m.step.requests = m.requests) : m.asked = [] := by
  rw [asked, h]
  exact List.drop_length

/-- What is called takes a step. -/
theorem Course.callee {talk : List Control} {f : Value} {args : List Value}
    (h : Course m₀ rs talk m) (hne : m.stack ≠ m₀.stack) (hc : m.control = .call f args site) :
    Course m₀ (rs ++ m.asked) talk m.step := by
  refine h.other hne fun hback => ?_
  rw [BackAbove, hc] at hback
  exact hback.1

theorem Control.IsReply.cases {c : Control} (h : c.IsReply) :
    (∃ vs, c = .give vs) ∨ ∃ error, c = .raise error := by
  cases c with
  | give vs => exact .inl ⟨vs, rfl⟩
  | raise error => exact .inr ⟨error, rfl⟩
  | _ => exact h.elim

theorem step_call {f : Value} {args : List Value} (hc : m.control = .call f args site) :
    m.step = m.call f args site := by
  rw [Machine.step, hc]

/-- The machine when a call that waits goes on. -/
def Machine.goOn (m : Machine) (stack : List Frame) : Machine :=
  { m with stack, depth := m.depth - 1 }

theorem step_give {vs : List Value} {stack : List Frame} (hc : m.control = .give vs)
    (hs : m.stack = .builtin p site :: stack) : m.step = (m.goOn stack).resume p site vs := by
  rw [Machine.step, hc]
  unfold Machine.give
  rw [hs]
  rfl

theorem step_raise {error : Value} {stack : List Frame} (hc : m.control = .raise error)
    (hs : m.stack = .builtin p site :: stack)
    (hp : p = .describe ∨ ∃ display done todo, p = .log display done todo) :
    (∃ text, error = .failure text ∧ m.step = m.goOn stack) ∨
      m.step = (m.goOn stack).describe error site := by
  rw [Machine.step, hc]
  unfold Machine.raise
  rw [hs]
  rcases hp with rfl | ⟨_, _, _, rfl⟩ <;> cases error
  all_goals first
    | exact .inl ⟨_, rfl, rfl⟩
    | exact .inr rfl

/-- The host has made of an error what it shows before `log` goes on. -/
theorem step_raise_lookUp {error : Value} {args : List Value} {stack : List Frame}
    (hc : m.control = .raise error) (hs : m.stack = .builtin (.lookUp args) site :: stack) :
    m.step = m.goOn stack := by
  rw [Machine.step, hc]
  unfold Machine.raise
  rw [hs]
  cases error <;> rfl

/-- The call waits, with `p`, and `rs` was asked for meanwhile. -/
structure Waits (m₀ : Machine) (p : Pending) (site : Site) (rs : List (Request Value))
    (m : Machine) : Prop extends Over (.builtin p site :: m₀.stack) m₀.requests m where
  requests : m.requests.toList = m₀.requests.toList ++ rs

namespace Waits

variable (h : Waits m₀ p site rs m)

include h

theorem frame {f : Frame} (hf : m.stack = f :: m₀.stack) :
    m.stack = .builtin p site :: m₀.stack := by
  obtain ⟨_, habove, -⟩ := h.above
  have hsuffix := hf ▸ habove.suffix
  exact hf.trans (hsuffix.eq_of_length rfl).symm

theorem stack_ne : m.stack ≠ m₀.stack := by
  obtain ⟨_, habove, -⟩ := h.above
  intro hs
  have := (hs ▸ habove.suffix).length_le
  exact absurd this (Nat.not_succ_le_self _)

theorem stack_ne_nil : m.stack ≠ [] := by
  obtain ⟨_, habove, -⟩ := h.above
  intro hs
  exact List.cons_ne_nil _ _ (List.eq_nil_of_suffix_nil (hs ▸ habove.suffix))

theorem other (hback : ¬ m.BackAbove m₀.stack) : Waits m₀ p site (rs ++ m.asked) m.step := by
  have hne (hc : m.control.IsReply) : m.stack ≠ .builtin p site :: m₀.stack :=
    fun hs => hback ⟨hc, _, hs⟩
  have hstep := h.toOver.step hne
  have hreq := step_requests h.toOver hne
  refine ⟨⟨hstep.above, h.asked.trans hstep.asked⟩, ?_⟩
  rw [hreq, h.requests, List.append_assoc]

theorem interrupted (text : String) : Waits m₀ p site rs (m.go (.raise (.failure text))) := by
  obtain ⟨_, habove, -⟩ := h.above
  exact ⟨⟨⟨_, habove, nofun⟩, h.asked⟩, h.requests⟩

end Waits

theorem waits_callBack (hs : n.stack = m₀.stack)
    (hreq : n.requests.toList = m₀.requests.toList ++ rs) (f : Value) (args : List Value) :
    Waits m₀ p site rs (n.callBack p site f args) :=
  ⟨⟨⟨false, hs ▸ .here, nofun⟩, hreq ▸ List.prefix_append _ _⟩, hreq⟩

/-- The host itself calls what stands for the globals that are missing, while `log` waits. -/
theorem waits_lookUp {args : List Value} (hs : n.stack = m₀.stack)
    (hreq : n.requests.toList = m₀.requests.toList ++ rs) (f : Value) (given : List Value) :
    Waits m₀ (.lookUp args) site rs
      ((n.pushCall (.builtin (.lookUp args) site)).callBack .host .outside f given) :=
  ⟨⟨⟨false, .builtin _ _ (hs ▸ .here), nofun⟩, hreq ▸ List.prefix_append _ _⟩, hreq⟩

/-! ### Lines -/

variable {args seen todo : List Value} {replies : List (List Value)} {done : List String}
  {talk lookup : List Control} {display : Value}

theorem displaying_append (v : Value) (vs : List Value) : ∀ {seen : List Value}
    {replies : List (List Value)}, replies.length = seen.length →
      displaying display (seen ++ [v]) (replies ++ [vs]) =
        displaying display seen replies ++ [.call display [v] .outside, .give vs]
  | [], [], _ => rfl
  | u :: seen, us :: replies, h => by
    simp only [List.cons_append, displaying, displaying_append v vs (Nat.succ.inj h)]

/-- A call of `log`, at any point of its course. -/
inductive Phase (m₀ : Machine) (args : List Value) (site : Site) (rs : List (Request Value))
    (talk : List Control) (m : Machine) : Prop
  | refused (error : Value) : m.stack = m₀.stack → m.control = .raise error →
      m.requests.toList = m₀.requests.toList ++ rs → Phase m₀ args site rs talk m
  | written (r : Request Value) : m.stack = m₀.stack → m.control = .give [] →
      Means m₀.heap args talk .log r → m.requests.toList = m₀.requests.toList ++ rs ++ [r] →
      Phase m₀ args site rs talk m
  | lookingUp {f : Value} {given : List Value} : m₀.heap.display = .call f given →
      talk = [.call f given .outside] → Waits m₀ (.lookUp args) site rs m →
      Phase m₀ args site rs talk m
  | displaying {display v : Value} {lookup : List Control} {seen todo : List Value}
      {replies : List (List Value)} {done : List String} : Found m₀.heap lookup display →
      args = seen ++ v :: todo → replies.length = seen.length →
      talk = lookup ++ displaying display seen replies ++ [.call display [v] .outside] →
      replies.Forall₂ (fun vs text => toText (vs.headD .nil) = .ok text) done.reverse →
      Waits m₀ (.log display done todo) site rs m → Phase m₀ args site rs talk m
  | describing : Waits m₀ .describe site rs m → Phase m₀ args site rs talk m

namespace Phase

variable (hs : n.stack = m₀.stack) (hreq : n.requests.toList = m₀.requests.toList ++ rs)

include hs hreq

theorem logParts (hdisplay : Found m₀.heap lookup display)
    (hargs : args = seen ++ todo) (hlen : replies.length = seen.length)
    (hall : replies.Forall₂ (fun vs text => toText (vs.headD .nil) = .ok text) done.reverse) :
    Phase m₀ args site rs (lookup ++ Script.displaying display seen replies ++
        [(n.logParts display done todo site).control])
      (n.logParts display done todo site) := by
  cases todo with
  | cons v rest =>
    exact .displaying hdisplay hargs hlen rfl hall (waits_callBack hs hreq ..)
  | nil =>
    rw [List.append_nil] at hargs
    rw [logParts_nil]
    refine .written _ hs rfl (.log hdisplay (hargs ▸ hlen) ?_ hall) ?_
    · rw [hargs]
    · rw [Array.toList_push, hreq]

theorem describe (error : Value) (talk : List Control) :
    Phase m₀ args site rs talk (n.describe error site) := by
  unfold Machine.describe
  split
  · exact .refused _ hs rfl hreq
  · exact .describing (waits_callBack hs hreq ..)

theorem logWith {v : Value}
    (hfound : ∀ display, toFunction v = .ok display → Found m₀.heap lookup display) :
    Phase m₀ args site rs (lookup ++ [(n.logWith v args site).control])
      (n.logWith v args site) := by
  unfold Machine.logWith
  split
  · exact .refused _ hs rfl hreq
  · rename_i display hdisplay
    have hnil : lookup ++ Script.displaying display [] [] = lookup := List.append_nil lookup
    rw [← hnil]
    exact logParts hs hreq (hfound display hdisplay) rfl rfl .nil

theorem log (hheap : n.heap = m₀.heap) :
    Phase m₀ args site rs [(n.log args site).control] (n.log args site) := by
  unfold Machine.log
  rw [hheap]
  split
  · rename_i v hv
    exact logWith hs hreq fun _ hdisplay => .here hv hdisplay
  · rename_i f given hf
    exact .lookingUp hf rfl (waits_lookUp hs hreq f given)
  · exact describe hs hreq _ _
  · exact describe hs hreq _ _

omit hs hreq

/-- What is found decides what displays the parts of the line. -/
theorem found {f : Value} {given vs : List Value} (hc : m.control = .give vs)
    (hs : m.stack = .builtin (.lookUp args) site :: m₀.stack)
    (hreq : m.requests.toList = m₀.requests.toList ++ rs)
    (hf : m₀.heap.display = .call f given) : Phase m₀ args site rs
      ([.call f given .outside] ++ [.give vs, m.step.control]) m.step := by
  rw [step_give hc hs]
  exact logWith (n := m.goOn m₀.stack) (by rfl) hreq fun _ hdisplay => .called hf hdisplay

theorem raised {error : Value} (hc : m.control = .raise error)
    (hs : m.stack = .builtin p site :: m₀.stack)
    (hp : p = .describe ∨ ∃ display done todo, p = .log display done todo)
    (hreq : m.requests.toList = m₀.requests.toList ++ rs) (talk : List Control) :
    Phase m₀ args site rs talk m.step := by
  rcases step_raise hc hs hp with ⟨text, rfl, hstep⟩ | hstep <;> rw [hstep]
  · exact .refused _ rfl hc hreq
  · exact describe (n := m.goOn m₀.stack) (by rfl) hreq error talk

theorem given {v : Value} {vs : List Value} (hc : m.control = .give vs)
    (hs : m.stack = .builtin (.log display done todo) site :: m₀.stack)
    (hreq : m.requests.toList = m₀.requests.toList ++ rs) (hdisplay : Found m₀.heap lookup display)
    (hargs : args = seen ++ v :: todo) (hlen : replies.length = seen.length)
    (hall : replies.Forall₂ (fun vs text => toText (vs.headD .nil) = .ok text) done.reverse) :
    Phase m₀ args site rs (lookup ++ Script.displaying display seen replies ++
      [.call display [v] .outside] ++ [.give vs, m.step.control]) m.step := by
  rw [step_give hc hs]
  unfold Machine.resume
  dsimp only
  split
  · rename_i part hpart
    have htalk (c : Control) : lookup ++ Script.displaying display seen replies ++
        [.call display [v] .outside] ++ [.give vs, c] =
        lookup ++ Script.displaying display (seen ++ [v]) (replies ++ [vs]) ++ [c] := by
      simp only [displaying_append v vs hlen, List.append_assoc, List.cons_append,
        List.nil_append]
    rw [htalk]
    refine logParts ?_ hreq hdisplay ?_ ?_ ?_
    · exact rfl
    · rw [hargs, List.append_assoc, List.singleton_append]
    · rw [List.length_append, List.length_append, hlen]
      rfl
    · rw [List.reverse_cons]
      exact List.rel_append hall (.cons hpart .nil)
  · exact .refused _ rfl rfl hreq

end Phase

theorem Course.phase (hcall : m₀.control = .call (.builtin (.capability .log)) args site)
    (h : Course m₀ rs talk m) : Phase m₀ args site rs talk m := by
  induction h with
  | called =>
    have hreq : m₀.requests.toList = m₀.requests.toList ++ [] := (List.append_nil _).symm
    rw [step_call hcall]
    unfold Machine.call
    split
    · exact .refused _ rfl rfl hreq
    · exact Phase.log rfl hreq rfl
  | @own rs talk m hcourse hback ih =>
    obtain ⟨hc, f, hf⟩ := hback
    -- the only frame on the stack of the caller is that of the call, so the reply is to it
    cases ih with
    | refused _ hs | written _ hs => exact absurd (hs.symm.trans hf) (List.cons_ne_self f _).symm
    | @displaying _ v _ _ _ _ _ hdisplay hargs hlen htalk hall hw =>
      have hs := hw.frame hf
      rcases hc.cases with ⟨vs, hc⟩ | ⟨error, hc⟩
      · rw [htalk, hc]
        exact Phase.given hc hs hw.requests hdisplay hargs hlen hall
      · exact Phase.raised hc hs (.inr ⟨_, _, _, rfl⟩) hw.requests _
    | @lookingUp f given hdisplay htalk hw =>
      have hs := hw.frame hf
      rcases hc.cases with ⟨vs, hc⟩ | ⟨error, hc⟩
      · rw [htalk, hc]
        exact Phase.found hc hs hw.requests hdisplay
      · rw [step_raise_lookUp hc hs]
        exact .refused _ rfl hc hw.requests
    | describing hw =>
      have hs := hw.frame hf
      rcases hc.cases with ⟨vs, hc⟩ | ⟨error, hc⟩
      · rw [step_give hc hs]
        exact .refused _ rfl rfl hw.requests
      · exact Phase.raised hc hs (.inl rfl) hw.requests _
  | other _ hne hback ih =>
    cases ih with
    | refused _ hs | written _ hs => exact absurd hs hne
    | lookingUp hdisplay htalk hw => exact .lookingUp hdisplay htalk (hw.other hback)
    | displaying hdisplay hargs hlen htalk hall hw =>
      exact .displaying hdisplay hargs hlen htalk hall (hw.other hback)
    | describing hw => exact .describing (hw.other hback)
  | interrupted text _ hne ih =>
    cases ih with
    | refused _ hs | written _ hs => exact absurd hs hne
    | lookingUp hdisplay htalk hw => exact .lookingUp hdisplay htalk (hw.interrupted text)
    | displaying hdisplay hargs hlen htalk hall hw =>
      exact .displaying hdisplay hargs hlen htalk hall (hw.interrupted text)
    | describing hw => exact .describing (hw.interrupted text)

/-! ### Lines of a surface that displays values as the library does -/

/-- What is among the globals is not looked for elsewhere. -/
theorem display_eq_value {h : Heap} {v : Value} (hv : h.field Heap.globals "tostring" = v)
    (hnil : v.isNil = false) : h.display = .value v := by
  subst hv
  exact if_pos (by rw [Bool.not_eq_true']; exact hnil)

/-- The library's `tostring`. -/
def tostring : Value := .builtin (.native .tostring)

/-- No script has a say in how these arguments are displayed, or an error that is a text. -/
structure PlainDisplay (h : Heap) (args : List Value) : Prop where
  tostring : h.display = .value tostring
  values : ∀ v ∈ args, h.metamethod v "__tostring" = .nil
  errors : ∀ s, h.metamethod (.str s) "__tostring" = .nil

/-- Tables apart, values are displayed as the library does it while no script changes that. -/
theorem Heap.Plain.plainDisplay {h : Heap} (hp : h.Plain)
    (hargs : ∀ v ∈ args, ∀ id, v ≠ .table id) : PlainDisplay h args := by
  refine ⟨display_eq_value hp.tostring rfl, fun v hv => ?_, fun _ => hp.errors⟩
  cases v with
  | table id => exact absurd rfl (hargs _ hv id)
  | str s => exact hp.errors
  | _ => rfl

/-- The text that the library displays a value as. -/
def Displayed (h : Heap) (v : Value) (text : String) : Prop :=
  Text.ofUtf8 (bytesOf (Library.display h v)) = .ok text

/-- A call of `log` in whose course no script runs. -/
inductive PlainPhase (m₀ : Machine) (args : List Value) (site : Site) (m : Machine) : Prop
  | refused (error : Value) : m.stack = m₀.stack → m.control = .raise error →
      m.requests = m₀.requests → PlainPhase m₀ args site m
  | written {texts : List String} : m.stack = m₀.stack → m.control = .give [] →
      args.Forall₂ (Displayed m₀.heap) texts →
      m.requests = m₀.requests.push (.log (" ".intercalate texts)) → PlainPhase m₀ args site m
  | displaying {v : Value} {seen todo : List Value} {done : List String} :
      args = seen ++ v :: todo → seen.Forall₂ (Displayed m₀.heap) done.reverse →
      m.stack = .builtin (.log tostring done todo) site :: m₀.stack → m.heap = m₀.heap →
      m.requests = m₀.requests →
      (m.control = .call tostring [v] .outside ∨
        m.control = .give [.str (bytesOf (Library.display m₀.heap v))] ∨
        (∃ text, m.control = .raise (.failure text)) ∨ ∃ s, m.control = .raise (.str s)) →
      PlainPhase m₀ args site m

theorem PlainPhase.logParts (hs : n.stack = m₀.stack) (hh : n.heap = m₀.heap)
    (hreq : n.requests = m₀.requests) (hargs : args = seen ++ todo)
    (hall : seen.Forall₂ (Displayed m₀.heap) done.reverse) :
    PlainPhase m₀ args site (n.logParts tostring done todo site) := by
  cases todo with
  | cons v rest =>
    exact .displaying hargs hall (congrArg _ hs) hh hreq (.inl rfl)
  | nil =>
    rw [List.append_nil] at hargs
    rw [logParts_nil]
    refine .written hs rfl (hargs ▸ hall) ?_
    rw [hreq]

theorem step_log (hcall : m₀.control = .call (.builtin (.capability .log)) args site)
    (hdepth : ¬ depthLimit < m₀.depth)
    (htostring : m₀.heap.display = .value tostring) :
    m₀.step = m₀.logParts tostring [] args site := by
  rw [step_call hcall]
  unfold Machine.call
  rw [if_neg hdepth]
  dsimp only
  unfold Machine.log
  rw [htostring]
  rfl

/-- The library's `tostring` answers at once, unless the stack is full. -/
theorem step_tostring {v : Value} (hc : m.control = .call tostring [v] .outside)
    (hv : m.heap.metamethod v "__tostring" = .nil) :
    m.step = if depthLimit < m.depth then m.go (.fault none "stack overflow".toList)
      else m.go (.give [.str (bytesOf (Library.display m.heap v))]) := by
  rw [step_call hc]
  unfold Machine.call
  refine if_congr Iff.rfl rfl ?_
  dsimp only [tostring]
  unfold Machine.callNative
  dsimp only
  rw [hv]
  rfl

theorem Course.plain (hcall : m₀.control = .call (.builtin (.capability .log)) args site)
    (hplain : PlainDisplay m₀.heap args) (h : Course m₀ rs talk m) :
    rs = [] ∧ PlainPhase m₀ args site m := by
  induction h with
  | called =>
    refine ⟨rfl, ?_⟩
    by_cases hdepth : depthLimit < m₀.depth
    · rw [step_call hcall]
      unfold Machine.call
      rw [if_pos hdepth]
      exact .refused _ rfl rfl rfl
    · have hargs : args = [] ++ args := rfl
      rw [step_log hcall hdepth hplain.tostring]
      exact .logParts rfl rfl rfl hargs .nil
  | @own rs talk m hcourse hback ih =>
    obtain ⟨hc, f, hf⟩ := hback
    obtain ⟨hrs, ih⟩ := ih
    refine ⟨hrs, ?_⟩
    cases ih with
    | refused _ hs | written hs => exact absurd (hs.symm.trans hf) (List.cons_ne_self f _).symm
    | @displaying v seen todo done hargs hall hs hh hreq hcontrol =>
      -- the library has answered, or there is an error: an interruption, or a full stack
      rcases hcontrol with hcon | hcon | ⟨text, hcon⟩ | ⟨s, hcon⟩
      · rw [hcon] at hc
        exact hc.elim
      · rw [step_give hcon hs]
        unfold Machine.resume
        dsimp only
        split
        · rename_i part hpart
          have hargs' : args = (seen ++ [v]) ++ todo := by
            rw [hargs, List.append_assoc, List.singleton_append]
          have hall' : (seen ++ [v]).Forall₂ (Displayed m₀.heap) (part :: done).reverse := by
            rw [List.reverse_cons]
            exact List.rel_append hall (.cons (toText_str.1 hpart) .nil)
          exact .logParts (n := m.goOn m₀.stack) (by rfl) hh hreq hargs' hall'
        · exact .refused _ rfl rfl hreq
      · rcases step_raise hcon hs (.inr ⟨_, _, _, rfl⟩) with ⟨_, -, hstep⟩ | hstep <;> rw [hstep]
        · exact .refused _ rfl hcon hreq
        · exact .refused _ rfl rfl hreq
      · rcases step_raise hcon hs (.inr ⟨_, _, _, rfl⟩) with ⟨_, h, -⟩ | hstep
        · cases h
        · have herror : (m.goOn m₀.stack).heap.metamethod (.str s) "__tostring" = .nil :=
            (congrArg (Heap.metamethod · _ _) hh).trans (hplain.errors s)
          rw [hstep]
          unfold Machine.describe
          rw [herror]
          exact .refused _ rfl rfl hreq
  | @other rs talk m hcourse hne hback ih =>
    obtain ⟨rfl, ih⟩ := ih
    cases ih with
    | refused _ hs | written hs => exact absurd hs hne
    | @displaying v seen todo done hargs hall hs hh hreq hcontrol =>
      -- others take a step only where the library is called, which is one step
      rcases hcontrol with hcon | hcon | ⟨text, hcon⟩ | ⟨s, hcon⟩
      · have hv : m.heap.metamethod v "__tostring" = .nil :=
          hh ▸ hplain.values v (hargs ▸ List.mem_append_right seen List.mem_cons_self)
        have hstep := step_tostring hcon hv
        have hasked : m.asked = [] := asked_eq_nil (by rw [hstep]; split <;> rfl)
        rw [hasked, hstep]
        refine ⟨rfl, ?_⟩
        split
        · exact .displaying hargs hall hs hh hreq (.inr (.inr (.inr ⟨_, rfl⟩)))
        · exact .displaying hargs hall hs hh hreq (.inr (.inl (hh ▸ rfl)))
      · exact absurd ⟨by rw [hcon]; trivial, _, hs⟩ hback
      · exact absurd ⟨by rw [hcon]; trivial, _, hs⟩ hback
      · exact absurd ⟨by rw [hcon]; trivial, _, hs⟩ hback
  | interrupted text _ hne ih =>
    obtain ⟨hrs, ih⟩ := ih
    refine ⟨hrs, ?_⟩
    cases ih with
    | refused _ hs | written hs => exact absurd hs hne
    | displaying hargs hall hs hh hreq hcontrol =>
      exact .displaying hargs hall hs hh hreq (.inr (.inr (.inl ⟨text, rfl⟩)))

/-! ### Other calls -/

theorem call_capability {c : Capability} (hc : c ≠ .log) (hdepth : ¬ depthLimit < m.depth) :
    m.call (.builtin (.capability c)) args site = m.ask c args := by
  unfold Machine.call
  rw [if_neg hdepth]
  cases c with
  | log => exact absurd rfl hc
  | _ => rfl

/-- What comes of a call that calls nothing back. -/
theorem step_capability {c : Capability} (hc : c ≠ .log)
    (hcall : m₀.control = .call (.builtin (.capability c)) args site) (talk : List Control) :
    (∃ error, m₀.step = m₀.go (.raise error) ∧
      (m₀.depth ≤ depthLimit → ∀ r, ¬ Means m₀.heap args talk c r)) ∨
    ∃ vs r, m₀.step.control = .give vs ∧ m₀.step.stack = m₀.stack ∧
      m₀.step.requests = m₀.requests.push r ∧ Means m₀.heap args talk c r := by
  rw [step_call hcall]
  by_cases hdepth : depthLimit < m₀.depth
  · left
    unfold Machine.call
    rw [if_pos hdepth]
    exact ⟨_, rfl, fun hle => absurd hle (Nat.not_le_of_lt hdepth)⟩
  · rw [call_capability hc hdepth]
    unfold Machine.ask
    dsimp only
    rcases asks_means hc talk m₀.requests with ⟨vs, r, hr, hrun⟩ | ⟨message, hno, hrun⟩ <;>
      rw [hrun]
    · exact .inr ⟨_, _, rfl, rfl, rfl, hr⟩
    · exact .inl ⟨_, rfl, fun _ => hno⟩

theorem step_stack {c : Capability} (hc : c ≠ .log)
    (hcall : m₀.control = .call (.builtin (.capability c)) args site) :
    m₀.step.stack = m₀.stack := by
  rcases step_capability hc hcall [] with ⟨error, h, -⟩ | ⟨_, _, -, h, -⟩
  · rw [h]
    rfl
  · exact h

/-- Such a call is over with its first step. -/
theorem Course.once {c : Capability} (hc : c ≠ .log)
    (hcall : m₀.control = .call (.builtin (.capability c)) args site) (h : Course m₀ rs talk m) :
    rs = [] ∧ m = m₀.step := by
  have hs := step_stack hc hcall
  induction h with
  | called => exact ⟨rfl, rfl⟩
  | own _ hback ih =>
    obtain ⟨-, f, hf⟩ := hback
    rw [ih.2, hs] at hf
    exact absurd hf (List.cons_ne_self f _).symm
  | other _ hne _ ih | interrupted _ _ hne ih => exact absurd (ih.2 ▸ hs) hne

/-! ### Courses in a sandbox -/

theorem Course.outcome?_eq_none {c : Capability}
    (hcall : m₀.control = .call (.builtin (.capability c)) args site) (h : Course m₀ rs talk m)
    (hne : m.stack ≠ m₀.stack) : m.outcome? = none := by
  have hnil : m.stack ≠ [] := by
    by_cases hc : c = .log
    · subst hc
      cases h.phase hcall with
      | refused _ hs | written _ hs => exact absurd hs hne
      | lookingUp _ _ hw | displaying _ _ _ _ _ hw | describing hw => exact hw.stack_ne_nil
    · obtain ⟨-, rfl⟩ := h.once hc hcall
      exact absurd (step_stack hc hcall) hne
  unfold Machine.outcome?
  cases hs : m.stack with
  | nil => exact absurd hs hnil
  | cons f rest => rfl

theorem finish_step {interruption : String} (h : m.outcome? = none) (fuel left : Nat) :
    Sandbox.finish interruption (fuel + 1) (left + 1) m =
      Sandbox.finish interruption fuel left m.step := by
  simp only [Sandbox.finish, h]

theorem finish_interrupted {interruption : String} (h : m.outcome? = none) (fuel : Nat) :
    Sandbox.finish interruption (fuel + 1) 0 m = Sandbox.finish interruption fuel
      Sandbox.lookEvery (m.go (.raise (.failure interruption))) := by
  simp only [Sandbox.finish, h]

theorem finish_course {c : Capability} (interruption : String)
    (hcall : m₀.control = .call (.builtin (.capability c)) args site) :
    ∀ (fuel left : Nat) {rs : List (Request Value)} {talk : List Control} {m : Machine},
      Course m₀ rs talk m →
      ∃ rs' talk' m', Course m₀ rs' talk' m' ∧
        (m'.stack = m₀.stack ∧ (∃ fuel' left', Sandbox.finish interruption fuel left m =
            Sandbox.finish interruption fuel' left' m') ∨
          Sandbox.finish interruption fuel left m =
            Sandbox.ending m' (.error (.failure interruption)))
  | 0, left, rs, talk, m, h => ⟨rs, talk, m, h, .inr rfl⟩
  | fuel + 1, left, rs, talk, m, h => by
    by_cases hs : m.stack = m₀.stack
    · exact ⟨rs, talk, m, h, .inl ⟨hs, _, _, rfl⟩⟩
    have hnone := h.outcome?_eq_none hcall hs
    cases left with
    | zero =>
      rw [finish_interrupted hnone]
      exact finish_course interruption hcall fuel _ (h.interrupted interruption hs)
    | succ left =>
      rw [finish_step hnone]
      by_cases hback : m.BackAbove m₀.stack
      · exact finish_course interruption hcall fuel _ (h.own hback)
      · exact finish_course interruption hcall fuel _ (h.other hs hback)

/-- A sandbox that makes a call sees it to the end of its course, unless its steps run out. -/
theorem finish_call {c : Capability} (interruption : String)
    (hcall : m₀.control = .call (.builtin (.capability c)) args site) (fuel left : Nat) :
    ∃ rs talk m, Course m₀ rs talk m ∧
      (m.stack = m₀.stack ∧ (∃ fuel' left',
          Sandbox.finish interruption (fuel + 1) (left + 1) m₀ =
            Sandbox.finish interruption fuel' left' m) ∨
        Sandbox.finish interruption (fuel + 1) (left + 1) m₀ =
          Sandbox.ending m (.error (.failure interruption))) := by
  have hnone : m₀.outcome? = none := by
    unfold Machine.outcome?
    rw [hcall]
    cases m₀.stack <;> rfl
  rw [finish_step hnone]
  exact finish_course interruption hcall fuel left .called

end Courses

end Script

end LiveModules
