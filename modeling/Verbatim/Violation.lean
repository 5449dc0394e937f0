import Verbatim.Text.Numeral

/-!
Broken contracts. An operation that is used against its contract is refused with the rule that was
broken; nothing is changed then.
-/

namespace Verbatim

inductive Violation where
  | secondRoot
  | tokenBeforeNode
  | nothingToFinish
  | noNodes
  | unfinishedNodes (count : Nat)
  | tooManyNames (limit : Nat)
  | textTooLong (bytes : Nat)
  | treeTooLarge
  | ruleAfterRoot (name : String)
  | tokenIndexOutOfRange (index count : Nat)
  | tokenOutsideRule (index : Nat)
  | tokenOutOfOrder (index next : Nat)
  | noRuleToExit
  | notNode
  | notToken
  | foreignNode
  | foreignToken
deriving DecidableEq

open Numeral in
def Violation.message : Violation → String
  | .secondRoot => "root node already created"
  | .tokenBeforeNode => "cannot add token before starting node"
  | .nothingToFinish => "no nodes are yet to be finished"
  | .noNodes => "no nodes created"
  | .unfinishedNodes count => s!"did not finish all nodes ({decimal count} unfinished nodes)"
  | .tooManyNames limit =>
    s!"too many distinct names: at most {decimal limit} rule names and token kinds fit in one tree"
  | .textTooLong bytes => s!"text is too long: {decimal bytes} bytes exceed u32::MAX"
  | .treeTooLarge => "syntax tree is too large"
  | .ruleAfterRoot name => s!"cannot enter `{name}`: the root rule already exited"
  | .tokenIndexOutOfRange index count => s!"token index {decimal index} out of range ({decimal count} tokens)"
  | .tokenOutsideRule index => s!"cannot attach token {decimal index} outside of a rule"
  | .tokenOutOfOrder index next =>
    s!"token {decimal index} attached twice or out of order (next unplaced token is {decimal next})"
  | .noRuleToExit => "no open rule to exit"
  | .notNode => "expected node"
  | .notToken => "expected token"
  | .foreignNode => "tried to access node data from tree other than the one this node is from"
  | .foreignToken => "tried to access token data from tree other than the one this token is from"

end Verbatim
