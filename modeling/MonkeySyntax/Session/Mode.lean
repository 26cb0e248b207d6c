/-! # Session modes -/

namespace MonkeySyntax

inductive Mode where
  | tokens
  | parse
  deriving DecidableEq, Repr

def Mode.name : Mode → String
  | .tokens => "Tokens"
  | .parse => "Parse"

end MonkeySyntax
