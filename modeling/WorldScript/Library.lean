import WorldScript.Capability.Registry
import WorldScript.Library.Chat
import WorldScript.Library.Documents
import WorldScript.Library.Lists
import WorldScript.Library.Math
import WorldScript.Library.Simulator
import WorldScript.Library.Strings

/-! # The standard library -/

namespace WorldScript

def Library.standard : List Provider := [
  Library.math, Library.strings, Library.lists, Library.chat, Library.simulator, Library.engine,
  Library.documents]

def Registry.standard (allowLong : Bool) : Registry :=
  .ofBuilder ((Builder.empty allowLong).installAll Library.standard).2

end WorldScript
