import Sush.Common.Jobs

/-!
# Messages of interactive jobs

`common/src/interactive.rs`: data packets are sent as binary messages, control messages as JSON in text
messages. The JSON of a control message is a parameter, with a reader that reads what the writer wrote.
-/

namespace Sush

/-- The size of a pseudoterminal. -/
structure WindowSize where
  rows : UInt16
  cols : UInt16
  deriving DecidableEq

inductive InteractiveJobControl where
  | windowChange (size : WindowSize)
  deriving DecidableEq

inductive InteractiveJobMessage where
  | control (control : InteractiveJobControl)
  | data (bytes : List UInt8)
  | ignore
  | close
  deriving DecidableEq

/-- A message on a WebSocket. -/
inductive WebSocketMessage where
  | text (message : String)
  | binary (bytes : List UInt8)
  | ping (bytes : List UInt8)
  | pong (bytes : List UInt8)
  | close (reason : Option String)
  | frame (bytes : List UInt8)
  deriving DecidableEq

/-- JSON of control messages. -/
class ControlJson where
  toJson : InteractiveJobControl → String
  fromJson : String → Option InteractiveJobControl
  fromJson_toJson : ∀ control, fromJson (toJson control) = some control

variable [ControlJson]

namespace InteractiveJobMessage

/-- `TryFrom<WebSocketMessage>`: only text can fail to be a message. -/
def tryFrom : WebSocketMessage → Option InteractiveJobMessage
  | .text message => (ControlJson.fromJson message).map .control
  | .binary bytes => some (.data bytes)
  | .close _ => some .close
  | _ => some .ignore

end InteractiveJobMessage

namespace WebSocketMessage

/-- `TryFrom<InteractiveJobMessage>`: ignored messages are not sent. -/
def tryFrom : InteractiveJobMessage → Option WebSocketMessage
  | .control control => some (.text (ControlJson.toJson control))
  | .data bytes => some (.binary bytes)
  | .close => some (.close none)
  | .ignore => none

/-- **What is sent is what is received.** -/
theorem tryFrom_tryFrom {message : InteractiveJobMessage} {encoded : WebSocketMessage}
    (h : tryFrom message = some encoded) : InteractiveJobMessage.tryFrom encoded = some message := by
  cases message with
  | control control =>
    cases h
    simp only [InteractiveJobMessage.tryFrom, ControlJson.fromJson_toJson, Option.map_some]
  | data bytes =>
    cases h
    rfl
  | ignore => cases h
  | close =>
    cases h
    rfl

end WebSocketMessage

end Sush
