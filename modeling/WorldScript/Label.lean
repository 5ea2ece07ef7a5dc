/-! # Names of branch targets -/

namespace WorldScript

structure Label where
  id : Nat
deriving DecidableEq

def Label.text (l : Label) : String := s!"L{l.id}"

inductive LabelPurpose where
  /-- Where a failed condition goes. -/
  | ifFalse
  /-- Where all arms of a conditional meet. -/
  | ifChainEnd
  | loopTop
  | loopContinue
  | loopEnd
  /-- A label of the script. -/
  | user (name : String)
deriving DecidableEq

def LabelPurpose.text : LabelPurpose → String
  | .ifFalse => "condition-false target"
  | .ifChainEnd => "end of if-chain"
  | .loopTop => "loop top"
  | .loopContinue => "loop continue"
  | .loopEnd => "loop end"
  | .user name => s!"user label '@{name}'"

structure LabelOrigin where
  purpose : LabelPurpose
  construct : String
  line : Nat
deriving DecidableEq

def LabelOrigin.text (o : LabelOrigin) : String :=
  s!"{o.purpose.text} of \"{o.construct}\" at line {o.line}"

end WorldScript
