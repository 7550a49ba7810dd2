import LiveModules.Game.Basic
import LiveModules.Proofs.Table
import Mathlib.Data.List.DropRight
import Mathlib.Data.List.Induction

/-!
# What readers of notices get

To each reader belongs what it has not seen of the notices, its inbox, which has no bound
(`inbox`). The bus holds no inboxes, only the last notices and how far each reader is, and that is
enough (`Game.Airs`): a reader gets what lies in its inbox, or learns how much of it is lost and
gets the rest. So what a reader was told and what lies in its inbox make up, in order, what was
issued since it subscribed (`Game.Airs.stay`, `notices_reach_readers`).
-/

namespace LiveModules

/-! ## Ends of lists -/

section Ends

variable {α : Type} {n m : Nat} {xs ys : List α} {x : α}

theorem lastOf_suffix (n : Nat) (xs : List α) : lastOf n xs <:+ xs := List.drop_suffix _ _

theorem length_lastOf (n : Nat) (xs : List α) : (lastOf n xs).length = min n xs.length := by
  rw [lastOf, List.length_drop]
  omega

theorem take_append_lastOf (n : Nat) (xs : List α) : xs.take (xs.length - n) ++ lastOf n xs = xs :=
  List.take_append_drop ..

theorem lastOf_of_length_le (h : xs.length ≤ n) : lastOf n xs = xs := by
  rw [lastOf, Nat.sub_eq_zero_of_le h, List.drop_zero]

theorem lastOf_lastOf (n m : Nat) (xs : List α) : lastOf n (lastOf m xs) = lastOf (min n m) xs := by
  simp only [lastOf, List.drop_drop, List.length_drop]
  congr 1
  omega

theorem lastOf_succ_concat (n : Nat) (xs : List α) (x : α) :
    lastOf (n + 1) (xs ++ [x]) = lastOf n xs ++ [x] :=
  List.rtake_concat_succ xs n x

theorem lastOf_concat (n : Nat) (xs : List α) (x : α) :
    lastOf n (lastOf n xs ++ [x]) = lastOf n (xs ++ [x]) := by
  cases n with
  | zero => exact (List.rtake_zero _).trans (List.rtake_zero _).symm
  | succ n => rw [lastOf_succ_concat, lastOf_succ_concat, lastOf_lastOf, Nat.min_eq_left n.le_succ]

theorem lastOf_length_of_suffix (h : ys <:+ xs) : lastOf ys.length xs = ys := by
  obtain ⟨before, rfl⟩ := h
  rw [lastOf, List.length_append, Nat.add_sub_cancel, List.drop_left]

/-- The end of a list is that of each list that ends in it. -/
theorem lastOf_of_suffix (n : Nat) (h : ys <:+ xs) : lastOf n ys = lastOf (min n ys.length) xs := by
  rw [← lastOf_lastOf, lastOf_length_of_suffix h]

end Ends

theorem ringLimit_eq : ringLimit = 128 := rfl

theorem historyLimit_eq : historyLimit = 1000 := rfl

theorem ringLimit_le_historyLimit : ringLimit ≤ historyLimit := by decide

attribute [local irreducible] lastOf ringLimit

/-! ## Receptions -/

/-- What a reader is told at once. -/
inductive Reception where
  /-- This many notices are lost to the reader. -/
  | missed (count : Nat)
  | notice (n : Notice)

namespace Reception

/-- How many notices it accounts for. -/
def count : Reception → Nat
  | missed count => count
  | notice _ => 1

/-- How many notices they account for. -/
def total : List Reception → Nat
  | [] => 0
  | r :: rs => r.count + total rs

/-- The receptions tell of the notices, in order: each is given, or counted as missed. -/
inductive Tell : List Reception → List Notice → Prop
  | nil : Tell [] []
  | missed {rs : List Reception} {ns : List Notice} (lost : List Notice) :
      Tell rs ns → Tell (.missed lost.length :: rs) (lost ++ ns)
  | notice {rs : List Reception} {ns : List Notice} (n : Notice) :
      Tell rs ns → Tell (.notice n :: rs) (n :: ns)

namespace Tell

variable {rs rs' : List Reception} {ns ns' : List Notice}

theorem append (h : Tell rs ns) (h' : Tell rs' ns') : Tell (rs ++ rs') (ns ++ ns') := by
  induction h with
  | nil => exact h'
  | missed lost _ ih =>
    rw [List.append_assoc]
    exact .missed lost ih
  | notice n _ ih => exact .notice n ih

theorem total_eq (h : Tell rs ns) : total rs = ns.length := by
  induction h with
  | nil => rfl
  | missed lost _ ih => rw [total, ih, List.length_append, count]
  | notice n _ ih => rw [total, ih, List.length_cons, count, Nat.add_comm]

theorem notices : ∀ ns : List Notice, Tell (ns.map .notice) ns
  | [] => .nil
  | n :: ns => .notice n (notices ns)

end Tell

end Reception

/-- A reading as a reader gets it that takes one thing after another. -/
def Reading.receptions (r : Reading) : List Reception :=
  (if r.lagged = 0 then [] else [.missed r.lagged]) ++ r.notices.map .notice

namespace NoticeBus

/-- Puts a reader past so many of the notices. -/
def moveTo (b : NoticeBus) (reader : String) (position : Nat) : NoticeBus :=
  { b with readers := b.readers.insert reader position }

theorem moveTo_moveTo (b : NoticeBus) (reader : String) (position position' : Nat) :
    (b.moveTo reader position).moveTo reader position' = b.moveTo reader position' := by
  simp only [moveTo, Table.insert_insert]

/-- Gives a reader one thing: how many notices it missed, if it did, or else the next one. -/
def receive (b : NoticeBus) (reader : String) : Option (Reception × NoticeBus) :=
  (b.readers.find? reader).bind fun position =>
    if ringLimit < b.published - position then
      some (.missed (b.published - position - ringLimit),
        b.moveTo reader (b.published - ringLimit))
    else (lastOf (b.published - position) b.ring).head?.map fun n =>
      (.notice n, b.moveTo reader (position + 1))

/-- To take one thing after another, until there is none, gives these. -/
inductive Drained (reader : String) : NoticeBus → List Reception → NoticeBus → Prop
  | nil {b : NoticeBus} : b.receive reader = none → Drained reader b [] b
  | cons {b b' b'' : NoticeBus} {r : Reception} {rs : List Reception} :
      b.receive reader = some (r, b') → Drained reader b' rs b'' → Drained reader b (r :: rs) b''

end NoticeBus

/-! ## Inboxes -/

/-- What is done with the notices of a game. -/
inductive NoticeOp where
  | issue (n : Notice)
  | subscribe (reader : String)
  | unsubscribe (reader : String)
  /-- The reader takes one thing. -/
  | receive (reader : String)
  /-- The reader takes all there is. -/
  | read (reader : String)

/-- What lies in an inbox that one thing was taken from. -/
def leftInbox (unread : List Notice) : List Notice :=
  if ringLimit < unread.length then lastOf ringLimit unread else unread.tail

/-- What somebody is told who takes one thing from an inbox. -/
def reception? (unread : List Notice) : Option Reception :=
  if ringLimit < unread.length then some (.missed (unread.length - ringLimit))
  else unread.head?.map .notice

/-- What somebody is told who takes all of an inbox. -/
def readingOf (unread : List Notice) : Reading :=
  ⟨unread.length - ringLimit, lastOf ringLimit unread⟩

namespace NoticeOp

def issued? : NoticeOp → Option Notice
  | issue n => some n
  | _ => none

/-- What becomes of the inbox of `reader`; there is none before it subscribes. -/
def deliver (reader : String) (unread : Option (List Notice)) : NoticeOp → Option (List Notice)
  | issue n => unread.map (· ++ [n])
  | subscribe r => if r = reader then some [] else unread
  | unsubscribe r => if r = reader then none else unread
  | receive r => if r = reader then unread.map leftInbox else unread
  | read r => if r = reader then unread.map fun _ => [] else unread

/-- The reader neither comes nor goes. -/
def Stays (reader : String) (op : NoticeOp) : Prop :=
  op ≠ .subscribe reader ∧ op ≠ .unsubscribe reader

variable {α : Type}

def apply (g : Game α) : NoticeOp → Game α
  | issue n => g.notify n
  | subscribe reader => { g with bus := g.bus.subscribe reader }
  | unsubscribe reader => { g with bus := g.bus.unsubscribe reader }
  | receive reader => { g with bus := ((g.bus.receive reader).map (·.2)).getD g.bus }
  | read reader => { g with bus := ((g.bus.read reader).map (·.2)).getD g.bus }

/-- What the reader is told. -/
def told (reader : String) (g : Game α) : NoticeOp → List Reception
  | receive r => if r = reader then ((g.bus.receive reader).map (·.1)).toList else []
  | read r => if r = reader then ((g.bus.read reader).map (·.1.receptions)).getD [] else []
  | _ => []

end NoticeOp

/-- The notices that were issued, in order. -/
def issued (ops : List NoticeOp) : List Notice := ops.filterMap NoticeOp.issued?

/-- What the reader has not seen; none if it is not subscribed. -/
def inbox (reader : String) (ops : List NoticeOp) : Option (List Notice) :=
  ops.foldl (NoticeOp.deliver reader) none

section Inbox

variable {reader : String} {ops : List NoticeOp} {op : NoticeOp} {unread : List Notice}

theorem issued_concat (ops : List NoticeOp) (op : NoticeOp) :
    issued (ops ++ [op]) = issued ops ++ op.issued?.toList := by
  rw [issued, List.filterMap_append, issued]
  cases h : op.issued? <;> simp [h]

theorem issued_concat_issue (ops : List NoticeOp) (n : Notice) :
    issued (ops ++ [.issue n]) = issued ops ++ [n] := issued_concat ..

theorem issued_concat_of_none (ops : List NoticeOp) (h : op.issued? = none) :
    issued (ops ++ [op]) = issued ops := by
  rw [issued_concat, h, Option.toList_none, List.append_nil]

theorem inbox_concat (reader : String) (ops : List NoticeOp) (op : NoticeOp) :
    inbox reader (ops ++ [op]) = op.deliver reader (inbox reader ops) :=
  List.foldl_concat ..

theorem leftInbox_suffix (unread : List Notice) : leftInbox unread <:+ unread := by
  unfold leftInbox
  split
  · exact lastOf_suffix ..
  · exact List.tail_suffix unread

theorem leftInbox_of_none (h : reception? unread = none) : leftInbox unread = unread := by
  unfold reception? at h
  split_ifs at h with hlt
  rw [leftInbox, if_neg hlt]
  cases unread with
  | nil => rfl
  | cons n unread => cases h

/-- What is issued comes into the inbox, and otherwise only less of it is left. -/
theorem NoticeOp.deliver_cases {inbox : Option (List Notice)}
    (h : op.deliver reader inbox = some unread) :
    (∃ n before, op = .issue n ∧ inbox = some before ∧ unread = before ++ [n]) ∨
      op.issued? = none ∧ (unread = [] ∨ ∃ before, inbox = some before ∧ unread <:+ before) := by
  cases op with
  | issue n =>
    obtain ⟨before, hbefore, rfl⟩ := Option.map_eq_some_iff.1 h
    exact .inl ⟨n, before, rfl, hbefore, rfl⟩
  | subscribe r =>
    rw [deliver] at h
    split_ifs at h
    · cases h
      exact .inr ⟨rfl, .inl rfl⟩
    · exact .inr ⟨rfl, .inr ⟨unread, h, List.suffix_rfl⟩⟩
  | unsubscribe r =>
    rw [deliver] at h
    split_ifs at h
    exact .inr ⟨rfl, .inr ⟨unread, h, List.suffix_rfl⟩⟩
  | receive r =>
    rw [deliver] at h
    split_ifs at h
    · obtain ⟨before, hbefore, rfl⟩ := Option.map_eq_some_iff.1 h
      exact .inr ⟨rfl, .inr ⟨before, hbefore, leftInbox_suffix before⟩⟩
    · exact .inr ⟨rfl, .inr ⟨unread, h, List.suffix_rfl⟩⟩
  | read r =>
    rw [deliver] at h
    split_ifs at h
    · obtain ⟨before, hbefore, rfl⟩ := Option.map_eq_some_iff.1 h
      exact .inr ⟨rfl, .inl rfl⟩
    · exact .inr ⟨rfl, .inr ⟨unread, h, List.suffix_rfl⟩⟩

/-- What lies in an inbox are the last notices that were issued. -/
theorem inbox_suffix (h : inbox reader ops = some unread) : unread <:+ issued ops := by
  induction ops using List.reverseRecOn generalizing unread with
  | nil => cases h
  | append_singleton ops op ih =>
    rw [inbox_concat] at h
    rcases NoticeOp.deliver_cases h with ⟨n, before, rfl, hbefore, rfl⟩ | ⟨hop, hunread⟩
    · obtain ⟨old, hold⟩ := ih hbefore
      exact ⟨old, by rw [← List.append_assoc, hold, issued_concat_issue]⟩
    · rw [issued_concat_of_none ops hop]
      rcases hunread with rfl | ⟨before, hbefore, hsuffix⟩
      · exact List.nil_suffix
      · exact hsuffix.trans (ih hbefore)

/-! ### What is taken from an inbox -/

theorem reception?_tells (unread : List Notice) :
    ∃ told, unread = told ++ leftInbox unread ∧ Reception.Tell (reception? unread).toList told := by
  unfold leftInbox reception?
  split_ifs with h
  · refine ⟨unread.take (unread.length - ringLimit), (take_append_lastOf ..).symm, ?_⟩
    have hlost : (unread.take (unread.length - ringLimit)).length = unread.length - ringLimit := by
      rw [List.length_take]
      omega
    simpa [hlost] using Reception.Tell.missed (unread.take (unread.length - ringLimit)) .nil
  · cases unread with
    | nil => exact ⟨[], rfl, .nil⟩
    | cons n unread => exact ⟨[n], rfl, .notice n .nil⟩

theorem readingOf_of_le (h : unread.length ≤ ringLimit) : readingOf unread = ⟨0, unread⟩ := by
  rw [readingOf, lastOf_of_length_le h, Nat.sub_eq_zero_of_le h]

theorem readingOf_count (unread : List Notice) :
    (readingOf unread).lagged + (readingOf unread).notices.length = unread.length := by
  change unread.length - ringLimit + (lastOf ringLimit unread).length = unread.length
  rw [length_lastOf]
  omega

theorem receptions_of_le (h : unread.length ≤ ringLimit) :
    (readingOf unread).receptions = unread.map .notice := by
  rw [readingOf_of_le h]
  rfl

theorem receptions_of_lt (h : ringLimit < unread.length) : (readingOf unread).receptions =
    .missed (unread.length - ringLimit) :: (lastOf ringLimit unread).map .notice := by
  rw [Reading.receptions, readingOf, if_neg (Nat.sub_ne_zero_of_lt h)]
  rfl

theorem readingOf_tells (unread : List Notice) :
    Reception.Tell (readingOf unread).receptions unread := by
  rcases Nat.lt_or_ge ringLimit unread.length with h | h
  · obtain ⟨told, hsplit, htold⟩ := reception?_tells unread
    rw [leftInbox, if_pos h] at hsplit
    rw [reception?, if_pos h] at htold
    rw [receptions_of_lt h]
    conv_rhs => rw [hsplit]
    exact htold.append (.notices _)
  · rw [receptions_of_le h]
    exact .notices unread

end Inbox

/-! ## Games -/

namespace Game

variable {α : Type} {g : Game α} {ops : List NoticeOp} {op : NoticeOp} {reader : String}
  {unread : List Notice}

/-- The game has what is left after `ops`: the last notices, twice, and how far each reader is. -/
structure Airs (g : Game α) (ops : List NoticeOp) : Prop where
  history : g.history.notices = lastOf historyLimit (issued ops)
  published : g.bus.published = (issued ops).length
  ring : g.bus.ring = lastOf ringLimit (issued ops)
  readers : ∀ reader, g.bus.readers.find? reader =
    (inbox reader ops).map fun unread => (issued ops).length - unread.length

/-- What becomes of the game that is empty at first. -/
def after (ops : List NoticeOp) : Game α := ops.foldl NoticeOp.apply empty

/-- What the reader is told, one operation after the other. -/
def told (reader : String) : Game α → List NoticeOp → List Reception
  | _, [] => []
  | g, op :: ops => op.told reader g ++ told reader (op.apply g) ops

namespace Airs

theorem find?_readers (h : g.Airs ops) (hu : inbox reader ops = some unread) :
    g.bus.readers.find? reader = some (g.bus.published - unread.length) ∧
      g.bus.published - (g.bus.published - unread.length) = unread.length := by
  rw [h.readers, hu, h.published]
  exact ⟨rfl, Nat.sub_sub_self (inbox_suffix hu).length_le⟩

/-- Somebody who reads gets what lies in the inbox, as far as the ring still holds it. -/
theorem read_eq (h : g.Airs ops) (reader : String) : g.bus.read reader =
    (inbox reader ops).map fun unread => (readingOf unread, g.bus.subscribe reader) := by
  cases hu : inbox reader ops with
  | none => rw [NoticeBus.read, h.readers, hu]; rfl
  | some unread =>
    obtain ⟨hposition, hfresh⟩ := h.find?_readers hu
    rw [NoticeBus.read, hposition, Option.map_some, Option.map_some, NoticeBus.since, hfresh,
      h.ring, lastOf_lastOf, readingOf, lastOf_of_suffix _ (inbox_suffix hu), Nat.min_comm]

/-- Somebody who takes one thing gets the first that is in the inbox, or learns what is lost. -/
theorem receive_eq (h : g.Airs ops) (hu : inbox reader ops = some unread) :
    g.bus.receive reader = (reception? unread).map fun r =>
      (r, g.bus.moveTo reader (g.bus.published - (leftInbox unread).length)) := by
  obtain ⟨hposition, hfresh⟩ := h.find?_readers hu
  have hlength : unread.length ≤ g.bus.published := h.published ▸ (inbox_suffix hu).length_le
  rw [NoticeBus.receive, hposition, Option.bind_some, hfresh, reception?, leftInbox]
  split_ifs with hlt
  · rw [Option.map_some, length_lastOf, Nat.min_eq_left hlt.le]
  · have hring : lastOf unread.length g.bus.ring = unread := by
      rw [h.ring, lastOf_lastOf, Nat.min_eq_left (Nat.le_of_not_lt hlt),
        lastOf_length_of_suffix (inbox_suffix hu)]
    rw [hring, Option.map_map]
    cases unread with
    | nil => rfl
    | cons n unread =>
      have hnext : g.bus.published - (n :: unread).length + 1 =
          g.bus.published - unread.length := by
        rw [List.length_cons] at hlength ⊢
        omega
      rw [hnext]
      rfl

/-- What does not issue a notice only moves readers. -/
theorem of_readers (h : g.Airs ops) (hop : op.issued? = none) {readers : Table String Nat}
    (hr : ∀ reader, readers.find? reader = (op.deliver reader (inbox reader ops)).map fun unread =>
      g.bus.published - unread.length) :
    Airs { g with bus := { g.bus with readers } } (ops ++ [op]) where
  history := h.history.trans (by rw [issued_concat_of_none ops hop])
  published := h.published.trans (by rw [issued_concat_of_none ops hop])
  ring := h.ring.trans (by rw [issued_concat_of_none ops hop])
  readers reader := by rw [hr, inbox_concat, issued_concat_of_none ops hop, h.published]

theorem moveTo (h : g.Airs ops) (hop : op.issued? = none) {r : String} {position : Nat}
    (hself : ∃ unread, op.deliver r (inbox r ops) = some unread ∧
      position = g.bus.published - unread.length)
    (hother : ∀ reader, reader ≠ r → op.deliver reader (inbox reader ops) = inbox reader ops) :
    Airs { g with bus := g.bus.moveTo r position } (ops ++ [op]) := by
  refine h.of_readers hop fun reader => ?_
  rw [Table.find?_insert]
  split_ifs with hr
  · obtain ⟨unread, hu, rfl⟩ := hself
    rw [hr, hu]
    rfl
  · rw [hother reader hr, h.readers, h.published]

/-- What is taken from an empty inbox leaves everything as it is. -/
theorem still (h : g.Airs ops) (hop : op.issued? = none)
    (hinbox : ∀ reader, op.deliver reader (inbox reader ops) = inbox reader ops) :
    g.Airs (ops ++ [op]) :=
  h.of_readers hop fun reader => by rw [hinbox, h.readers, h.published]

theorem issue (h : g.Airs ops) (n : Notice) : (g.notify n).Airs (ops ++ [.issue n]) where
  history := by
    rw [issued_concat_issue, ← lastOf_concat, ← h.history]
    rfl
  published := by
    rw [issued_concat_issue, List.length_append, ← h.published]
    rfl
  ring := by
    rw [issued_concat_issue, ← lastOf_concat, ← h.ring]
    rfl
  readers reader := by
    rw [inbox_concat, issued_concat_issue, NoticeOp.deliver, Option.map_map]
    refine (h.readers reader).trans (congrFun (congrArg Option.map (funext fun unread => ?_)) _)
    simp

theorem receive (h : g.Airs ops) (r : String) :
    ((NoticeOp.receive r).apply g).Airs (ops ++ [.receive r]) := by
  have hother (reader : String) (hr : reader ≠ r) :
      (NoticeOp.receive r).deliver reader (inbox reader ops) = inbox reader ops := if_neg hr.symm
  cases hu : inbox r ops with
  | none =>
    have hnone : g.bus.receive r = none := by rw [NoticeBus.receive, h.readers, hu]; rfl
    rw [NoticeOp.apply, hnone]
    refine h.still rfl fun reader => ?_
    by_cases hr : reader = r
    · rw [hr, hu]
      exact ite_self _
    · exact hother reader hr
  | some unread =>
    have hself : (NoticeOp.receive r).deliver r (inbox r ops) = some (leftInbox unread) := by
      rw [hu, NoticeOp.deliver, if_pos rfl, Option.map_some]
    rw [NoticeOp.apply, h.receive_eq hu]
    cases hx : reception? unread with
    | none =>
      refine h.still rfl fun reader => ?_
      by_cases hr : reader = r
      · rw [hr, hself, hu, leftInbox_of_none hx]
      · exact hother reader hr
    | some x => exact h.moveTo rfl ⟨_, hself, rfl⟩ hother

theorem read (h : g.Airs ops) (r : String) :
    ((NoticeOp.read r).apply g).Airs (ops ++ [.read r]) := by
  have hother (reader : String) (hr : reader ≠ r) :
      (NoticeOp.read r).deliver reader (inbox reader ops) = inbox reader ops := if_neg hr.symm
  rw [NoticeOp.apply, h.read_eq]
  cases hu : inbox r ops with
  | none =>
    refine h.still rfl fun reader => ?_
    by_cases hr : reader = r
    · rw [hr, hu]
      exact ite_self _
    · exact hother reader hr
  | some unread =>
    refine h.moveTo rfl ⟨[], ?_, rfl⟩ hother
    rw [hu, NoticeOp.deliver, if_pos rfl, Option.map_some]

theorem apply (h : g.Airs ops) (op : NoticeOp) : (op.apply g).Airs (ops ++ [op]) := by
  cases op with
  | issue n => exact h.issue n
  | subscribe r => exact h.moveTo rfl ⟨[], if_pos rfl, rfl⟩ fun reader hr => if_neg hr.symm
  | unsubscribe r =>
    refine h.of_readers rfl fun reader => ?_
    rw [NoticeOp.deliver]
    split_ifs with hr
    · rw [← hr]
      exact Table.find?_erase_self ..
    · rw [Table.find?_erase_of_ne _ (Ne.symm hr), h.readers, h.published]
  | receive r => exact h.receive r
  | read r => exact h.read r

/-! ### What a reader is told -/

/-- One operation moves notices from the inbox to what was told, in order. -/
theorem told_cases (h : g.Airs ops) (hu : inbox reader ops = some unread) (hop : op.Stays reader) :
    ∃ ns unread', inbox reader (ops ++ [op]) = some unread' ∧
      unread ++ op.issued?.toList = ns ++ unread' ∧ Reception.Tell (op.told reader g) ns := by
  rw [inbox_concat, hu]
  cases op with
  | issue n => exact ⟨[], _, rfl, rfl, .nil⟩
  | subscribe r =>
    have hr : r ≠ reader := fun hr => hop.1 (congrArg _ hr)
    exact ⟨[], unread, if_neg hr, List.append_nil _, .nil⟩
  | unsubscribe r =>
    have hr : r ≠ reader := fun hr => hop.2 (congrArg _ hr)
    exact ⟨[], unread, if_neg hr, List.append_nil _, .nil⟩
  | receive r =>
    by_cases hr : r = reader
    · subst hr
      obtain ⟨ns, hsplit, htold⟩ := reception?_tells unread
      refine ⟨ns, leftInbox unread, if_pos rfl, (List.append_nil _).trans hsplit, ?_⟩
      rw [NoticeOp.told, if_pos rfl, h.receive_eq hu, Option.map_map]
      cases hx : reception? unread <;> rw [hx] at htold <;> exact htold
    · exact ⟨[], unread, if_neg hr, List.append_nil _, by rw [NoticeOp.told, if_neg hr]; exact .nil⟩
  | read r =>
    by_cases hr : r = reader
    · subst hr
      refine ⟨unread, [], if_pos rfl, rfl, ?_⟩
      rw [NoticeOp.told, if_pos rfl, h.read_eq, hu]
      exact readingOf_tells unread
    · exact ⟨[], unread, if_neg hr, List.append_nil _, by rw [NoticeOp.told, if_neg hr]; exact .nil⟩

/-- As long as a reader stays, what it is told and then what lies in its inbox make up what lay
there and what is issued meanwhile. -/
theorem stay {later : List NoticeOp} (h : g.Airs ops) (hu : inbox reader ops = some unread)
    (hlater : ∀ op ∈ later, op.Stays reader) : ∃ ns unread',
      inbox reader (ops ++ later) = some unread' ∧ unread ++ issued later = ns ++ unread' ∧
      Reception.Tell (told reader g later) ns := by
  -- The game goes on with each operation, and what was done grows at its end.
  induction later generalizing g ops unread with
  | nil => exact ⟨[], unread, by rwa [List.append_nil], List.append_nil _, .nil⟩
  | cons op later ih =>
    obtain ⟨ns, unread₁, hu₁, hsplit, htold⟩ := h.told_cases hu (hlater op List.mem_cons_self)
    obtain ⟨ns', unread', hu', hsplit', htold'⟩ :=
      ih (h.apply op) hu₁ fun op' hm => hlater op' (List.mem_cons_of_mem _ hm)
    refine ⟨ns ++ ns', unread', ?_, ?_, htold.append htold'⟩
    · rwa [List.append_assoc] at hu'
    · have hissued : issued (op :: later) = op.issued?.toList ++ issued later := by
        rw [issued, List.filterMap_cons, issued]
        cases op.issued? <;> rfl
      rw [hissued, ← List.append_assoc, hsplit, List.append_assoc, hsplit', List.append_assoc]

/-- After a reception the rest of a reading is a reading of what is left. -/
theorem drained_cons {r : Reception} (h : g.Airs ops) (hu : inbox reader ops = some unread)
    (hr : reception? unread = some r)
    (hrest : ∀ g' : Game α, g'.Airs (ops ++ [.receive reader]) →
      inbox reader (ops ++ [.receive reader]) = some (leftInbox unread) →
      g'.bus.Drained reader (readingOf (leftInbox unread)).receptions (g'.bus.subscribe reader)) :
    g.bus.Drained reader (r :: (readingOf (leftInbox unread)).receptions)
      (g.bus.subscribe reader) := by
  have hreceive := h.receive_eq hu
  rw [hr, Option.map_some] at hreceive
  have hinbox : inbox reader (ops ++ [.receive reader]) = some (leftInbox unread) := by
    rw [inbox_concat, hu, NoticeOp.deliver, if_pos rfl, Option.map_some]
  have hd := hrest _ (h.receive reader) hinbox
  rw [NoticeOp.apply, hreceive] at hd
  have hsubscribe (position : Nat) : (g.bus.moveTo reader position).subscribe reader =
      g.bus.subscribe reader := g.bus.moveTo_moveTo reader position g.bus.published
  exact .cons hreceive (hsubscribe _ ▸ hd)

/-- To read is to take one thing after another until there is none. -/
theorem drained (h : g.Airs ops) (hu : inbox reader ops = some unread) :
    g.bus.Drained reader (readingOf unread).receptions (g.bus.subscribe reader) := by
  -- By how much is unread: each reception leaves less.
  induction hn : unread.length using Nat.strongRecOn generalizing g ops unread with
  | ind n ih =>
  subst hn
  rcases Nat.lt_or_ge ringLimit unread.length with hlt | hle
  · have hleft : leftInbox unread = lastOf ringLimit unread := if_pos hlt
    have hlength : (leftInbox unread).length = ringLimit := by
      rw [hleft, length_lastOf, Nat.min_eq_left hlt.le]
    have hreceptions : (readingOf unread).receptions =
        .missed (unread.length - ringLimit) :: (readingOf (leftInbox unread)).receptions := by
      rw [receptions_of_lt hlt, receptions_of_le hlength.le, hleft]
    rw [hreceptions]
    exact h.drained_cons hu (if_pos hlt) fun g' h' hu' => ih _ (hlength ▸ hlt) h' hu' rfl
  · cases unread with
    | nil =>
      have hnone : g.bus.receive reader = none := by
        rw [h.receive_eq hu, reception?, if_neg (Nat.not_lt_of_le hle)]
        rfl
      have hposition : g.bus.readers.find? reader = some g.bus.published :=
        (h.find?_readers hu).1
      have hsame : g.bus.subscribe reader = g.bus := by
        rw [NoticeBus.subscribe, Table.insert_of_find? hposition]
      rw [receptions_of_le hle, hsame]
      exact .nil hnone
    | cons n unread =>
      have hleft : leftInbox (n :: unread) = unread := if_neg (Nat.not_lt_of_le hle)
      have hlt : unread.length < (n :: unread).length := Nat.lt_succ_self _
      have hd := h.drained_cons hu (if_neg (Nat.not_lt_of_le hle)) fun g' h' hu' =>
        ih _ (by rw [hleft]; exact hlt) h' hu' rfl
      rw [hleft, receptions_of_le (hlt.le.trans hle)] at hd
      rwa [receptions_of_le hle]

/-- What is read are the last notices of the history. -/
theorem read_suffix (h : g.Airs ops) (hu : inbox reader ops = some unread) :
    (readingOf unread).notices <:+ g.history.notices := by
  have hmin : min (min ringLimit unread.length) historyLimit = min ringLimit unread.length :=
    Nat.min_eq_left ((Nat.min_le_left ..).trans ringLimit_le_historyLimit)
  rw [readingOf, lastOf_of_suffix _ (inbox_suffix hu), h.history, ← hmin, ← lastOf_lastOf]
  exact lastOf_suffix ..

end Airs

theorem after_airs (ops : List NoticeOp) : (after ops : Game α).Airs ops := by
  induction ops using List.reverseRecOn with
  | nil =>
    exact ⟨(lastOf_of_length_le (Nat.zero_le _)).symm, rfl,
      (lastOf_of_length_le (Nat.zero_le _)).symm, fun _ => rfl⟩
  | append_singleton ops op ih =>
    rw [after, List.foldl_concat]
    exact ih.apply op

theorem told_issues (reader : String) (g : Game α) (ns : List Notice) :
    told reader g (ns.map .issue) = [] := by
  induction ns generalizing g with
  | nil => rfl
  | cons n ns ih => exact ih (g.notify n)

end Game

theorem issued_issues (ns : List Notice) : issued (ns.map .issue) = ns := by
  rw [issued, List.filterMap_map]
  exact List.filterMap_some

theorem inbox_subscribe (reader : String) (ops : List NoticeOp) :
    inbox reader (ops ++ [.subscribe reader]) = some [] := by
  rw [inbox_concat, NoticeOp.deliver, if_pos rfl]

/-- The history is the end of what was issued. What a reader was told since it subscribed and what
it gets when it reads tell, in order, of all that was issued meanwhile: of what is unread it gets
all, or how many it missed and then as many as the ring holds. -/
theorem notices_reach_readers {α : Type} (ops : List NoticeOp) :
    (Game.after ops : Game α).history.notices = lastOf 1000 (issued ops) ∧
    ∀ (reader : String) (before later : List NoticeOp),
      ops = before ++ .subscribe reader :: later → (∀ op ∈ later, op.Stays reader) →
      let g : Game α := Game.after ops
      let told := Game.told reader (Game.after (before ++ [.subscribe reader]) : Game α) later
      ∃ (seen unread : List Notice) (r : Reading), issued later = seen ++ unread ∧
        Reception.Tell told seen ∧ Reception.Tell (told ++ r.receptions) (issued later) ∧
        Reception.total told + (r.lagged + r.notices.length) = (issued later).length ∧
        g.bus.read reader = some (r, g.bus.subscribe reader) ∧
        g.bus.Drained reader r.receptions (g.bus.subscribe reader) ∧
        (unread.length ≤ 128 → r = ⟨0, unread⟩) ∧
        (128 < unread.length →
          r = ⟨unread.length - 128, lastOf 128 unread⟩ ∧ r.notices.length = 128) ∧
        r.notices <:+ g.history.notices := by
  rw [← ringLimit_eq, ← historyLimit_eq]
  refine ⟨(Game.after_airs (α := α) ops).history, ?_⟩
  rintro reader before later rfl hlater g told
  have hops : before ++ .subscribe reader :: later = before ++ [.subscribe reader] ++ later :=
    List.append_cons ..
  obtain ⟨seen, unread, hu, hsplit, htold⟩ :=
    (Game.after_airs (α := α) _).stay (inbox_subscribe reader before) hlater
  have hairs : g.Airs (before ++ [.subscribe reader] ++ later) := hops ▸ Game.after_airs _
  have hsplit : issued later = seen ++ unread := hsplit
  refine ⟨seen, unread, readingOf unread, hsplit, htold, ?_, ?_, ?_, hairs.drained hu,
    readingOf_of_le, fun h => ⟨rfl, ?_⟩, hairs.read_suffix hu⟩
  · rw [hsplit]
    exact htold.append (readingOf_tells unread)
  · rw [htold.total_eq, readingOf_count, hsplit, List.length_append]
  · rw [hairs.read_eq, hu, Option.map_some]
  · rw [readingOf, length_lastOf, Nat.min_eq_left h.le]

/-- Two of a hundred and thirty are lost to a reader that takes its time. -/
theorem slow_reader_told :
    let issues : List NoticeOp := (List.range 130).map fun i => .issue ⟨.warn, toString i⟩
    (∀ op ∈ issues, op.Stays "ann") ∧
    ∃ b, (Game.after (.subscribe "ann" :: issues) : Game Unit).bus.read "ann" =
      some (⟨2, (List.range' 2 128).map fun i => ⟨.warn, toString i⟩⟩, b) := by
  intro issues
  have hissues : issues =
      ((List.range 130).map fun i => (⟨.warn, toString i⟩ : Notice)).map .issue := by
    rw [List.map_map]
    rfl
  have hstays : ∀ op ∈ issues, op.Stays "ann" := by
    intro op hop
    obtain ⟨i, -, rfl⟩ := List.mem_map.1 hop
    exact ⟨fun h => (by cases h), fun h => (by cases h)⟩
  obtain ⟨-, hreads⟩ := notices_reach_readers (α := Unit) (.subscribe "ann" :: issues)
  obtain ⟨seen, unread, r, hsplit, hseen, -, -, hread, -, -, hlost, -⟩ :=
    hreads "ann" [] issues rfl hstays
  rw [hissues, Game.told_issues] at hseen
  obtain rfl : seen = [] := by cases hseen; rfl
  rw [hissues, issued_issues, List.nil_append] at hsplit
  have hlength : unread.length = 130 := by rw [← hsplit]; simp
  have hlast : lastOf 128 unread = (List.range' 2 128).map fun i => ⟨.warn, toString i⟩ := by
    rw [lastOf, hlength, ← hsplit, ← List.map_drop]
    rfl
  exact ⟨hstays, _, by rw [hread, (hlost (by omega)).1, hlast, hlength]⟩

end LiveModules
