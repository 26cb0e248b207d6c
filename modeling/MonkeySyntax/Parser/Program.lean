import MonkeySyntax.Parser.Expression

/-! # Reading programs

A statement that breaks off is left out of the program, and its error is kept. `parse` reads a
whole source, and gives its program and its errors in the order in which they were found.
-/

namespace MonkeySyntax

namespace Parser

/-- Read a `let` statement; the tokens of its value are skipped. -/
def bindingStatement (p : Parser) : Option Statement × Parser :=
  match p.expect .identifier with
  | (false, q) => (none, q.synchronize)
  | (true, q) =>
    match q.expect .assign with
    | (false, r) => (none, r.synchronize)
    | (true, r) => (some (.binding p.current q.current q.current.literal), r.skipToEnd)

def returningStatement (p : Parser) : Option Statement × Parser :=
  (some (.returning p.current), p.skipToEnd)

/-- Read an expression as a statement, and a semicolon behind it also if it broke off. -/
def expressionStatement (p : Parser) : Option Statement × Parser :=
  let (e, q) := p.expression .lowest
  (e.map (.expression p.current), if q.peek.kind = .semicolon then q.advance else q)

def statement (p : Parser) : Option Statement × Parser :=
  match p.rules.statement p.current.kind with
  | some .binding => p.bindingStatement
  | some .returning => p.returningStatement
  | some .expression => p.expressionStatement
  | none => p.expressionStatement

/-- Read statements up to the end of the stream, at most `turns` of them. -/
def statementsWithin : Nat → Parser → List Statement × Parser
  | 0, p => ([], p)
  | turns + 1, p =>
    if p.current.kind = .eof then ([], p)
    else
      let (s, q) := p.statement
      let (rest, r) := statementsWithin turns q.advance
      (s.toList ++ rest, r)

/-- Read a program: statements up to the end of the stream. Each takes a token, so the tokens left
bound their number. -/
def program (p : Parser) : Program × Parser :=
  let (statements, q) := p.statementsWithin p.stream.pending.length
  (⟨statements⟩, { q with log := q.log.push (.parsedProgram statements.length q.errors.size) })

end Parser

def parse (source : String) (file : Option String) : Program × List SyntaxError :=
  let (program, p) := (Parser.ofSource source file).program
  (program, p.errors.toList)

end MonkeySyntax
