import LiveModules.Event
import LiveModules.Game.Basic

/-!
# Scripts

What the host knows of a scripting language. A run of a script asks for registrations and notices
and may end in a failure; it never waits for the host, so a run is known by what it asks for, how it
ends and the state that it leaves.
-/

namespace LiveModules

/-- What a script asks of the host; `κ` are its functions. -/
inductive Request (κ : Type) where
  | command (key : CommandKey) (description : String) (callback : κ)
  | room (id : String) (spec : RoomSpec)
  | item (room : String) (template : Item) (respawnSecs : Float)
  | character (name : String) (properties : Members)
  | handler (key : EventKey) (callback : κ)
  | timeout (delayMs : Float) (callback : κ)
  | preventDefault
  | broadcast (message : String)
  | log (line : String)

/-- A run: what it asked for, in order, the failure that ended it, and the state after it. -/
structure Run (σ κ : Type) where
  requests : List (Request κ)
  failure : Option String
  state : σ

/-- A scripting language. -/
structure Engine where
  State : Type
  Callback : Type
  /-- Runs the text of a module in a fresh state. -/
  load : (module source : String) → Run State Callback
  /-- Calls a function that an earlier run in this state handed out. -/
  call : State → Callback → List Json → Run State Callback

end LiveModules
