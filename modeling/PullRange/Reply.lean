/-!
# Replies

A reply is what a collaborator without a state of its own comes to. Turning a value into text is the
one thing about such a collaborator that an observer may notice, so a reply also keeps the texts of
the conversions that took place, up to its failure.
-/

namespace PullRange

structure Reply (ε α : Type) where
  converted : List String
  result : Except ε α

namespace Reply

variable {ε α β : Type}

def pure (answer : α) : Reply ε α :=
  { converted := [], result := .ok answer }

def fail (error : ε) : Reply ε α :=
  { converted := [], result := .error error }

def noting (text : String) (reply : Reply ε α) : Reply ε α :=
  { reply with converted := text :: reply.converted }

def bind (reply : Reply ε α) (next : α → Reply ε β) : Reply ε β :=
  match reply.result with
  | .error error => { converted := reply.converted, result := .error error }
  | .ok answer =>
      let following := next answer
      { converted := reply.converted ++ following.converted, result := following.result }

instance : Monad (Reply ε) where
  pure := Reply.pure
  bind := Reply.bind

end Reply

/-- Values that can be turned into text, which may be noticed and may fail. -/
class Textual (V : Type) (ε : outParam Type) where
  toText : V → Reply ε String

end PullRange
