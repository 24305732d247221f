import CssSyntax.Production

/-! A parser driven by single calls: looks at the tokens ahead, steps over them, the recoveries,
problems from outside, and whole productions. -/

namespace CssSyntax

inductive Call where
  | current
  | next
  | nth (count : Nat)
  | currentIs (kind : Kind)
  | nextIs (kind : Kind)
  | currentIsWord (word : Bytes)
  | isAdjacent (count : Nat)
  | atEnd
  | blockFollows
  | advance
  | skipComments
  | skipBlock
  | skipDeclaration
  | skipGroup
  | skipAtRule
  | accept (kind : Kind)
  | acceptWord (word : Bytes)
  | expect (kind : Kind) (problem : Problem)
  | report (problem : Problem)
  | reportAt (problem : Problem) (count : Nat)
  /-- The token need not be one of those ahead. -/
  | reportToken (problem : Problem) (token : Token)
  | read (production : Production)

/-- What a call answers with. -/
inductive Answer where
  | done
  | token (token : Token)
  | truth (value : Bool)
  | fragment (found : Option Fragment)

namespace Call

open Reading

def run : Call → Reading Answer
  | .current => Answer.token <$> Reading.current
  | .next => Answer.token <$> peek Parser.next
  | .nth count => Answer.token <$> peek fun parser => parser.nth count
  | .currentIs kind => Answer.truth <$> Reading.currentIs kind
  | .nextIs kind => Answer.truth <$> Reading.nextIs kind
  | .currentIsWord word => Answer.truth <$> peek fun parser => parser.current.isWord word
  | .isAdjacent count => Answer.truth <$> peek fun parser => parser.isAdjacent count
  | .atEnd => Answer.truth <$> peek Parser.atEnd
  | .blockFollows => Answer.truth <$> Reading.blockFollows
  | .advance => (fun _ => Answer.done) <$> Reading.advance
  | .skipComments => (fun _ => Answer.done) <$> Reading.skipComments
  | .skipBlock => (fun _ => Answer.done) <$> Reading.skipBlock
  | .skipDeclaration => (fun _ => Answer.done) <$> Reading.skipDeclaration
  | .skipGroup => (fun _ => Answer.done) <$> Reading.skipGroup
  | .skipAtRule => (fun _ => Answer.done) <$> Reading.skipAtRule
  | .accept kind => Answer.truth <$> Reading.accept kind
  | .acceptWord word => Answer.truth <$> Reading.acceptWord word
  | .expect kind problem => Answer.truth <$> Reading.expect kind problem
  | .report problem => (fun _ => Answer.done) <$> Reading.report problem
  | .reportAt problem count => do
    Reading.reportAt problem (← peek fun parser => parser.nth count)
    return .done
  | .reportToken problem token => (fun _ => Answer.done) <$> Reading.reportAt problem token
  | .read production => Answer.fragment <$> production.read

/-- Each call's answer with the parser after it. -/
def runAll : List Call → Parser → List (Answer × Parser)
  | [], _ => []
  | call :: calls, parser =>
    let found := call.run parser
    found :: runAll calls found.2

end Call

end CssSyntax
