import LiveModules.Proofs.Results
import LiveModules.Script.Machine.Step
import Mathlib.Data.List.Forall2
import Mathlib.Data.List.Infix

/-!
# What calls of capabilities ask for

A call of a capability converts its arguments, and where one cannot be converted it is refused
before it asks for anything; else it asks for one request (`Asks`). Which request that is says
`Means`, without the order of the conversions.
-/

namespace LiveModules.Script

open Capability

/-! ## One request or none -/

/-- The call asks for one request, of which `P` holds, or it is refused, having asked for nothing,
and `P` holds of no request. -/
def Asks (x : Asking (List Value)) (P : Request Value → Prop) : Prop :=
  ∀ rs, (∃ vs r, P r ∧ x.run rs = (.ok vs, rs.push r)) ∨
    ∃ message, (∀ r, ¬ P r) ∧ x.run rs = (.error message, rs)

namespace Asks

variable {x : Asking (List Value)} {P Q : Request Value → Prop}

theorem request (r : Request Value) (vs : List Value) :
    Asks (do Capability.request r; return vs) fun r' => r' = r :=
  fun _ => .inl ⟨vs, r, rfl, rfl⟩

/-- A conversion comes before what is asked for. -/
theorem convert {α : Type} (e : Except String α) {f : α → Asking (List Value)}
    {P : α → Request Value → Prop} (h : ∀ a, Asks (f a) (P a)) :
    Asks (liftM e >>= f) fun r => ∃ a, e = .ok a ∧ P a r := by
  intro rs
  cases e with
  | error message =>
    refine .inr ⟨message, ?_, rfl⟩
    rintro r ⟨a, ha, -⟩
    cases ha
  | ok a =>
    rcases h a rs with ⟨vs, r, hr, hrun⟩ | ⟨message, hno, hrun⟩
    · exact .inl ⟨vs, r, ⟨a, rfl, hr⟩, hrun⟩
    · refine .inr ⟨message, ?_, hrun⟩
      rintro r ⟨_, ha, hr⟩
      cases ha
      exact hno r hr

theorem congr (h : Asks x P) (hPQ : ∀ r, P r ↔ Q r) : Asks x Q := by
  rwa [show Q = P from funext fun r => propext (hPQ r).symm]

/-- What was asked for stays asked for. -/
theorem run_grows (h : Asks x P) (rs : Array (Request Value)) :
    rs.toList <+: (x.run rs).2.toList := by
  rcases h rs with ⟨vs, r, -, hrun⟩ | ⟨message, -, hrun⟩
  · rw [hrun, Array.toList_push]
    exact List.prefix_append _ _
  · rw [hrun]

end Asks

/-! ## What a call stands for -/

/-- Argument `n`, counted from 1; one that is not given is `nil`. -/
def arg (args : List Value) (n : Nat) : Value := args[n - 1]?.getD .nil

/-- What is said when `tostring` is looked up, and what is found: a function among the globals, or
what a call answers that stands for those that are missing. -/
inductive Found (h : Heap) : List Control → Value → Prop
  | here {v display : Value} : h.display = .value v → toFunction v = .ok display →
      Found h [] display
  | called {f display : Value} {given vs : List Value} : h.display = .call f given →
      toFunction (vs.headD .nil) = .ok display →
      Found h [.call f given .outside, .give vs] display

/-- What is said to a function that displays values one by one, and what it answers. -/
def displaying (display : Value) : List Value → List (List Value) → List Control
  | v :: args, vs :: replies =>
    .call display [v] .outside :: .give vs :: displaying display args replies
  | _, _ => []

/-- The request that a call stands for, by its arguments and by its talk with what it calls. -/
inductive Means (h : Heap) (args : List Value) (talk : List Control) :
    Capability → Request Value → Prop
  | command {verb description : String} {f : Value} : toText (arg args 1) = .ok verb →
      toText (arg args 2) = .ok description → toFunction (arg args 3) = .ok f →
      Means h args talk .command (.command ⟨verb, none⟩ description f)
  | itemCommand {verb item description : String} {f : Value} : toText (arg args 1) = .ok verb →
      toText (arg args 2) = .ok item → toText (arg args 3) = .ok description →
      toFunction (arg args 4) = .ok f →
      Means h args talk .itemCommand (.command ⟨verb, some item⟩ description f)
  | room {id : String} {members : Members} {spec : RoomSpec} : toText (arg args 1) = .ok id →
      toMembers h (arg args 2) = .ok members →
      RoomSpec.read (.ofJson (.object members)) = .ok spec → Means h args talk .room (.room id spec)
  | item {room name : String} {members : Members} : toText (arg args 1) = .ok room →
      toText (arg args 2) = .ok name → toMembers h (arg args 3) = .ok members →
      Means h args talk .item (.item room (.ofProperties name members)
        (((Assoc.find? "respawnTimer" members).bind Json.asFloat?).getD
          Capability.defaultRespawnSecs))
  | character {name : String} {members : Members} : toText (arg args 1) = .ok name →
      toMembers h (arg args 2) = .ok members →
      Means h args talk .character (.character name members)
  | handler {name : String} {f : Value} : toText (arg args 1) = .ok name →
      toFunction (arg args 2) = .ok f →
      Means h args talk .handler (.handler (.unscoped name) f)
  | event {name subject : String} {f : Value} : toText (arg args 1) = .ok name →
      toText (arg args 2) = .ok subject → toFunction (arg args 3) = .ok f →
      Means h args talk .event (.handler (.withSubject name subject) f)
  | setTimeout {f : Value} {delayMs : Float} : toFunction (arg args 1) = .ok f →
      toDelay (arg args 2) = .ok delayMs → Means h args talk .setTimeout (.timeout delayMs f)
  | preventDefault : Means h args talk .preventDefault .preventDefault
  | broadcast {message : String} : toText (arg args 1) = .ok message →
      Means h args talk .broadcast (.broadcast message)
  /-- Every argument is displayed by what goes by the name of `tostring`. -/
  | log {display : Value} {lookup : List Control} {replies : List (List Value)}
      {texts : List String} : Found h lookup display → replies.length = args.length →
      talk = lookup ++ displaying display args replies ++ [.give []] →
      replies.Forall₂ (fun vs text => toText (vs.headD .nil) = .ok text) texts →
      Means h args talk .log (.log (" ".intercalate texts))

section Meanings

variable {h : Heap} {args : List Value} {c : Capability}

theorem argument_eq_ok {α : Type} {convert : Value → Except String α} {n : Nat} {a : α} :
    argument convert args n = .ok a ↔ convert (arg args n) = .ok a := by
  unfold argument arg
  cases convert (args[n - 1]?.getD .nil) with
  | error e => exact ⟨nofun, nofun⟩
  | ok b => exact Iff.rfl

theorem Asks.argument {α : Type} (convert : Value → Except String α) (n : Nat)
    {f : α → Asking (List Value)} {P : α → Request Value → Prop} (hf : ∀ a, Asks (f a) (P a)) :
    Asks (liftM (argument convert args n) >>= f) fun r =>
      ∃ a, convert (arg args n) = .ok a ∧ P a r :=
  (Asks.convert _ hf).congr fun _ => exists_congr fun _ => and_congr_left' argument_eq_ok

/-- What a call asks for that calls nothing back is what it stands for. -/
theorem asks_means (hc : c ≠ .log) (talk : List Control) :
    Asks (c.ask h args) (Means h args talk c) := by
  cases c with
  | command =>
    refine (Asks.argument _ 1 fun _ => .argument _ 2 fun _ => .argument _ 3 fun _ =>
      .request _ []).congr fun r => ⟨?_, fun hr => ?_⟩
    · rintro ⟨_, h₁, _, h₂, _, h₃, rfl⟩
      exact .command h₁ h₂ h₃
    · cases hr with
      | command h₁ h₂ h₃ => exact ⟨_, h₁, _, h₂, _, h₃, rfl⟩
  | itemCommand =>
    refine (Asks.argument _ 1 fun _ => .argument _ 2 fun _ => .argument _ 3 fun _ =>
      .argument _ 4 fun _ => .request _ []).congr fun r => ⟨?_, fun hr => ?_⟩
    · rintro ⟨_, h₁, _, h₂, _, h₃, _, h₄, rfl⟩
      exact .itemCommand h₁ h₂ h₃ h₄
    · cases hr with
      | itemCommand h₁ h₂ h₃ h₄ => exact ⟨_, h₁, _, h₂, _, h₃, _, h₄, rfl⟩
  | room =>
    refine (Asks.argument _ 1 fun _ => .convert _ fun _ => .convert _ fun _ =>
      .request _ []).congr fun r => ⟨?_, fun hr => ?_⟩
    · rintro ⟨_, h₁, _, h₂, _, h₃, rfl⟩
      exact .room h₁ h₂ (Except.mapError_eq_ok_iff.1 h₃)
    · cases hr with
      | room h₁ h₂ h₃ => exact ⟨_, h₁, _, h₂, _, Except.mapError_eq_ok_iff.2 h₃, rfl⟩
  | item =>
    refine (Asks.argument _ 1 fun _ => .argument _ 2 fun _ => .convert _ fun _ =>
      .request _ []).congr fun r => ⟨?_, fun hr => ?_⟩
    · rintro ⟨_, h₁, _, h₂, _, h₃, rfl⟩
      exact .item h₁ h₂ h₃
    · cases hr with
      | item h₁ h₂ h₃ => exact ⟨_, h₁, _, h₂, _, h₃, rfl⟩
  | character =>
    refine (Asks.argument _ 1 fun name => .convert _ fun _ =>
      .request _ [.text name]).congr fun r => ⟨?_, fun hr => ?_⟩
    · rintro ⟨_, h₁, _, h₂, rfl⟩
      exact .character h₁ h₂
    · cases hr with
      | character h₁ h₂ => exact ⟨_, h₁, _, h₂, rfl⟩
  | handler =>
    refine (Asks.argument _ 1 fun _ => .argument _ 2 fun _ =>
      .request _ []).congr fun r => ⟨?_, fun hr => ?_⟩
    · rintro ⟨_, h₁, _, h₂, rfl⟩
      exact .handler h₁ h₂
    · cases hr with
      | handler h₁ h₂ => exact ⟨_, h₁, _, h₂, rfl⟩
  | event =>
    refine (Asks.argument _ 1 fun _ => .argument _ 2 fun _ => .argument _ 3 fun _ =>
      .request _ []).congr fun r => ⟨?_, fun hr => ?_⟩
    · rintro ⟨_, h₁, _, h₂, _, h₃, rfl⟩
      exact .event h₁ h₂ h₃
    · cases hr with
      | event h₁ h₂ h₃ => exact ⟨_, h₁, _, h₂, _, h₃, rfl⟩
  | setTimeout =>
    refine (Asks.argument _ 1 fun _ => .argument _ 2 fun _ =>
      .request _ [.text (timeoutName h.timeouts)]).congr fun r => ⟨?_, fun hr => ?_⟩
    · rintro ⟨_, h₁, _, h₂, rfl⟩
      exact .setTimeout h₁ h₂
    · cases hr with
      | setTimeout h₁ h₂ => exact ⟨_, h₁, _, h₂, rfl⟩
  | preventDefault =>
    refine (Asks.request _ []).congr fun r => ⟨?_, fun hr => ?_⟩
    · rintro rfl
      exact .preventDefault
    · cases hr with
      | preventDefault => exact rfl
  | broadcast =>
    refine (Asks.argument _ 1 fun _ => .request _ []).congr fun r => ⟨?_, fun hr => ?_⟩
    · rintro ⟨_, h₁, rfl⟩
      exact .broadcast h₁
    · cases hr with
      | broadcast h₁ => exact ⟨_, h₁, rfl⟩
  | log => exact absurd rfl hc

/-- A line that is given as a whole. -/
theorem asks_log : Asks (Capability.ask .log h args) fun r =>
    ∃ line, toText (args.headD .nil) = .ok line ∧ r = .log line :=
  .convert _ fun _ => .request _ []

theorem ask_grows (c : Capability) (h : Heap) (args : List Value) (rs : Array (Request Value)) :
    rs.toList <+: ((c.ask h args).run rs).2.toList := by
  by_cases hc : c = .log
  · subst hc
    exact asks_log.run_grows rs
  · exact (asks_means hc []).run_grows rs

end Meanings

end LiveModules.Script
