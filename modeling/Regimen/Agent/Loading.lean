import Regimen.Agent.Decoding
import Regimen.Document.Reader

/-!
# Loading agents

An agent from the text of a document, or from the bytes of a file that holds one.
-/

namespace Regimen

/-- Why no agent can be loaded. -/
inductive LoadFault where
  /-- There is no file, or its bytes are no text. -/
  | unreadable
  /-- The text is no document. -/
  | malformed
  /-- The document is refused. -/
  | refused (fault : Fault)

namespace Agent

/-- The agent that a text describes. -/
def ofText (options : Options) (text : String) : Except LoadFault Agent :=
  match Value.ofText? text with
  | none => .error .malformed
  | some document => (decode options document).mapError .refused

/-- The agent that the bytes of a file describe, if there is such a file. -/
def ofFile (options : Options) (bytes : Option ByteArray) : Except LoadFault Agent :=
  match bytes.bind String.fromUTF8? with
  | none => .error .unreadable
  | some text => ofText options text

end Agent

end Regimen
