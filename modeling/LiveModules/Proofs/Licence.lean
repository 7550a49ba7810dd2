import LiveModules.Proofs.Places

/-!
# What the callbacks of a world may be

A licence says which modules scripts come from and which actions plans take. A world is licensed
when every callback that it holds is; what actions hand over is licensed with them, so nothing else
gets in.
-/

namespace LiveModules

/-- Every action that a plan may come to take satisfies `A`. -/
inductive Plan.Within (A : Action → Prop) : Plan → Prop
  | finish (outcome : Outcome) : Within A (.finish outcome)
  | act {a : Action} {next : Answer → Plan} :
      A a → (∀ answer, Within A (next answer)) → Within A (.act a next)

theorem Plan.within_true : ∀ p : Plan, p.Within fun _ => True
  | .finish outcome => .finish outcome
  | .act _ next => .act trivial fun answer => within_true (next answer)

/-- The plans that an action registers. -/
def Action.Carries : Action → Plan → Prop
  | .on _ _ react, p | .onAny _ react, p | .subscribe _ _ react, p => ∃ n event, p = react n event
  | .createCommand _ _ react, p => ∃ n call, p = react n call
  | .schedule _ _ _ task, p => p = task
  | _, _ => False

structure Licence where
  /-- Which modules scripts come from. -/
  module : String → Prop
  /-- Which actions plans take. -/
  action : Action → Prop
  emit : ∀ event, action (.emit event)
  carried : ∀ {a}, action a → ∀ {p : Plan}, a.Carries p → p.Within action

namespace Licence

/-- Everything is allowed. -/
def all : Licence where
  module := fun _ => True
  action := fun _ => True
  emit := fun _ => trivial
  carried := fun _ _ _ => Plan.within_true _

/-- Only scripts register anything: the host emits, runs commands and runs what is due. -/
def scripts : Licence where
  module := fun _ => True
  action
    | .emit _ | .runCommand .. | .runDue _ => True
    | _ => False
  emit := fun _ => trivial
  carried {a} ha p hp := by cases a <;> first | exact ha.elim | exact hp.elim

end Licence

variable {E : Engine} (L : Licence)

/-- A script of an allowed module, from a surface that the journal tells of. -/
def Origin.Licensed (journal : List Entry) (o : Origin) : Prop :=
  L.module o.module ∧ ∃ modified, .loading o.module o.surface modified ∈ journal

def Listener.Licensed : Listener → Prop
  | .plan _ react => ∀ n event, (react n event).Within L.action
  | .relay => True

def Subscriber.Licensed (journal : List Entry) : Subscriber E → Prop
  | .plan _ react => ∀ n event, (react n event).Within L.action
  | .script f => f.origin.Licensed L journal
  | .spawnCheck _ => True

def CommandAction.Licensed (journal : List Entry) : CommandAction E → Prop
  | .plan _ react => ∀ n call, (react n call).Within L.action
  | .script f => f.origin.Licensed L journal

def Task.Licensed (journal : List Entry) : Task E → Prop
  | .plan _ p => p.Within L.action
  | .script f => f.origin.Licensed L journal

structure World.Licensed (w : World E) : Prop where
  listeners : ∀ key, ∀ m ∈ w.hub.hearers key, m.content.Licensed L
  subscribers : ∀ place key, ∀ m ∈ (w.roster place).listed key,
    m.content.Licensed L w.journal.toList
  commands : ∀ key c, w.game.commands.find? key = some c → c.action.Licensed L w.journal.toList
  tasks : ∀ t ∈ w.timers.pending, t.task.Licensed L w.journal.toList
  numbered : w.Numbered

variable {L} {journal journal' : List Entry}

theorem Origin.Licensed.mono {o : Origin} (hj : journal ⊆ journal') (h : o.Licensed L journal) :
    o.Licensed L journal' :=
  ⟨h.1, h.2.imp fun _ h => hj h⟩

theorem Subscriber.Licensed.mono (hj : journal ⊆ journal') :
    ∀ {s : Subscriber E}, s.Licensed L journal → s.Licensed L journal'
  | .plan .., h => h
  | .script _, h => Origin.Licensed.mono hj h
  | .spawnCheck _, _ => trivial

theorem CommandAction.Licensed.mono (hj : journal ⊆ journal') :
    ∀ {a : CommandAction E}, a.Licensed L journal → a.Licensed L journal'
  | .plan .., h => h
  | .script _, h => Origin.Licensed.mono hj h

theorem Task.Licensed.mono (hj : journal ⊆ journal') :
    ∀ {t : Task E}, t.Licensed L journal → t.Licensed L journal'
  | .plan .., h => h
  | .script _, h => Origin.Licensed.mono hj h

/-- More may have happened meanwhile. -/
theorem World.Licensed.mono {w w' : World E} (h : w.Licensed L)
    (hj : w.journal.toList ⊆ w'.journal.toList) (hn : w'.Numbered)
    (hl : ∀ key, ∀ m ∈ w'.hub.hearers key, m.content.Licensed L)
    (hs : ∀ place key, ∀ m ∈ (w'.roster place).listed key,
      m ∈ (w.roster place).listed key ∨ m.content.Licensed L w'.journal.toList)
    (hc : ∀ key c, w'.game.commands.find? key = some c →
      w.game.commands.find? key = some c ∨ c.action.Licensed L w'.journal.toList)
    (ht : ∀ t ∈ w'.timers.pending, t ∈ w.timers.pending ∨ t.task.Licensed L w'.journal.toList) :
    w'.Licensed L where
  listeners := hl
  subscribers := fun place key m hm =>
    (hs place key m hm).elim (fun hm => (h.subscribers place key m hm).mono hj) id
  commands := fun key c hc' => (hc key c hc').elim (fun hc => (h.commands key c hc).mono hj) id
  numbered := hn
  tasks := fun t hm => (ht t hm).elim (fun hm => (h.tasks t hm).mono hj) id

end LiveModules
