import QmlPreview.Document.Facts
import QmlPreview.Error
import QmlPreview.HostRequest

/-!
What a preview session asks of the rendering engine.

The previewer renders nothing itself. It hands documents to an engine, which answers with the root
objects that it created; none means that the document could not be loaded.
-/

namespace QmlPreview

inductive EngineRequest where
  /-- Load a file. -/
  | load (locator : Locator)
  /-- Load a text; relative imports resolve against `base`. -/
  | loadText (text : Text) (base : Locator)
  /-- Show another document in place of the present one. If it cannot be loaded, the present one
  stays. -/
  | reload (locator : Locator) (facts : Facts)
  /-- The exit code, once the engine has shut down. -/
  | exitCode
  deriving DecidableEq, Repr

/-- The answers to each request; root objects are known by their numbers. -/
abbrev EngineRequest.Answer : EngineRequest → Type
  | load _ | loadText _ _ => Except Fault (List Nat)
  | reload _ _ => Except Error Unit
  | exitCode => Except Fault (Option Int)

inductive SessionRequest where
  | host (r : HostRequest)
  | engine (r : EngineRequest)
  deriving DecidableEq, Repr

abbrev SessionRequest.Answer : SessionRequest → Type
  | host r => r.Answer
  | engine r => r.Answer

abbrev SessionScript := Script SessionRequest SessionRequest.Answer

namespace SessionScript

def ofHostScript {α : Type} (s : HostScript α) : SessionScript α :=
  s.expand (fun r => Script.request (SessionRequest.host r))

instance : MonadLift HostScript SessionScript := ⟨ofHostScript⟩

def load (locator : Locator) : SessionScript (Except Fault (List Nat)) :=
  Script.request (SessionRequest.engine (.load locator))

def loadText (text : Text) (base : Locator) : SessionScript (Except Fault (List Nat)) :=
  Script.request (SessionRequest.engine (.loadText text base))

def reload (locator : Locator) (facts : Facts) : SessionScript (Except Error Unit) :=
  Script.request (SessionRequest.engine (.reload locator facts))

def exitCode : SessionScript (Except Fault (Option Int)) :=
  Script.request (SessionRequest.engine .exitCode)

end SessionScript

end QmlPreview
