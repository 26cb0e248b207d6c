import MonkeySyntax.Proofs.Program.Comparison
import MonkeySyntax.Proofs.Token.Seam
import MonkeySyntax.Tree.Printer

/-! # Semicolons isolate statements

Nothing before a semicolon changes how the source behind it is read, and nothing behind it how the
source before it is read, unless another semicolon comes next.
-/

namespace MonkeySyntax

def SyntaxError.shift (n : Nat) (e : SyntaxError) : SyntaxError :=
  { e with position := e.position.shift n }

def Statement.shift (n : Nat) (s : Statement) : Statement := s.mapTokens (Token.shift n)

variable {n : Nat}

namespace Parser.Comparison

/-- The first parser's tokens are images of the second one's, and both follow the standard rules. -/
def ofMap (f : Token → Token) (hk : ∀ t, (f t).kind = t.kind) (hl : ∀ t, (f t).literal = t.literal)
    (earlier : List SyntaxError) (cut : Prop) (behind : List Token)
    (hb : ¬ cut → behind = []) (hh : cut → ∀ t ∈ behind.head?, t.kind ≠ .semicolon) :
    Comparison where
  same t t' := t = f t'
  rules := .standard
  rules' := .standard
  earlier := earlier
  cut := cut
  behind := behind
  kind_eq h := by rw [h, hk]
  literal_eq h := by rw [h, hl]
  statement_eq h := by rw [h, hk]
  operand_eq h := by rw [h, hk]
  infixOp_eq h _ := by rw [h, hk]
  behind_eq_nil := hb
  head_behind := hh
  semicolon_rules _ := ⟨rfl, rfl⟩

end Parser.Comparison

variable {a b : String} {file : Option String}

theorem pending_ofSource_append (ha : a.toList.getLast? = some ';') :
    (TokenStream.ofSource (a ++ b) file).pending = (TokenStream.ofSource a file).pending ++
      (TokenStream.ofSource b file).pending.map (Token.shift (Text.byteLength a.toList)) := by
  obtain ⟨cs, hcs⟩ := List.getLast?_eq_some_iff.1 ha
  simp only [TokenStream.ofSource, String.toList_append]
  rw [hcs, lexemes_semicolon_append, place_lexemes_append]

theorem ending_ofSource_append (a b : String) (file : Option String) :
    (TokenStream.ofSource (a ++ b) file).ending =
      (TokenStream.ofSource b file).ending.shift (Text.byteLength a.toList) := by
  have h : Token.ending (file.getD defaultFile) (a.toList ++ b.toList) = _ :=
    Token.ending_append a.toList b.toList
  rwa [← String.toList_append] at h

theorem getLast?_pending_ofSource (ha : a.toList.getLast? = some ';') :
    ∃ t ∈ (TokenStream.ofSource a file).pending.getLast?, t.kind = .semicolon := by
  obtain ⟨cs, hcs⟩ := List.getLast?_eq_some_iff.1 ha
  simp only [TokenStream.ofSource]
  rw [hcs, lexemes_append_semicolon, place_append]
  exact ⟨_, List.getLast?_concat, rfl⟩

theorem head_pending_ofSource (hb : ∀ t ∈ (tokenize b file).head?, t.kind ≠ .semicolon) :
    ∀ t ∈ (TokenStream.ofSource b file).pending.head?, t.kind ≠ .semicolon := by
  intro t ht
  refine hb t ?_
  rw [tokenize, TokenStream.toList, List.head?_append, Option.mem_def.1 ht]
  rfl

namespace Parser

open Comparison

/-- Up to the semicolon, a longer source is read as the part that ends with it. -/
theorem exists_runs_of_front {ss' : List Statement} {r' : Parser}
    (hrun : Runs (ofSource a file) ss' r') (ha : a.toList.getLast? = some ';')
    (hb : ∀ t ∈ (tokenize b file).head?, t.kind ≠ .semicolon) :
    ∃ q, q.rules = .standard ∧ q.depth = 0 ∧ q.errors = r'.errors ∧
      q.stream.pending =
        (TokenStream.ofSource b file).pending.map (Token.shift (Text.byteLength a.toList)) ∧
      q.stream.ending = (TokenStream.ofSource (a ++ b) file).ending ∧
      ∀ us r, Runs q us r → Runs (ofSource (a ++ b) file) (ss' ++ us) r := by
  let behind := (TokenStream.ofSource b file).pending.map (Token.shift (Text.byteLength a.toList))
  have hh : ∀ t ∈ behind.head?, t.kind ≠ .semicolon := by
    intro t ht
    rw [List.head?_map, Option.mem_def, Option.map_eq_some_iff] at ht
    obtain ⟨u, hu, rfl⟩ := ht
    exact head_pending_ofSource hb u hu
  let c := ofMap id (fun _ => rfl) (fun _ => rfl) [] True behind (fun h => absurd trivial h)
    fun _ => hh
  have hc : c.Holds (ofSource (a ++ b) file) (ofSource a file) := {
    rules_eq := rfl
    rules_eq' := rfl
    depth_eq := rfl
    errors := ⟨[], rfl, .nil⟩
    pending := ⟨_, pending_ofSource_append ha, List.forall₂_same.2 fun _ _ => rfl⟩
    ending := fun h => absurd trivial h
    semicolon := fun _ => getLast?_pending_ofSource ha }
  obtain ⟨ss, q, hss, hl, hp, he, hruns⟩ := exists_runs_append hrun hc
  obtain ⟨es, hes, hes'⟩ := hl.errors
  have hss : ss = ss' := by
    have := eq_map_of_forall₂ hss fun _ _ h => h.eq_mapTokens.trans (Statement.mapTokens_id _)
    simpa using this
  have hes : q.errors.toList = r'.errors.toList := by
    rw [hes, eq_map_of_forall₂ hes' fun _ _ h => h.eq_map (g := id) fun _ => rfl]
    exact List.map_id _
  refine ⟨q, hl.rules_eq, ?_, Array.toList_inj.1 hes, hp, he, hss ▸ hruns⟩
  rw [hl.depth_eq, hrun.depth_eq]
  rfl

theorem exists_runs_of_back {q : Parser} {ss' : List Statement} {r' : Parser}
    (hrun : Runs (ofSource b file) ss' r') (hr : q.rules = .standard) (hd : q.depth = 0)
    (hp : q.stream.pending = (TokenStream.ofSource b file).pending.map (Token.shift n))
    (he : q.stream.ending = (TokenStream.ofSource b file).ending.shift n) :
    ∃ r, Runs q (ss'.map (Statement.shift n)) r ∧
      r.errors.toList = q.errors.toList ++ r'.errors.toList.map (SyntaxError.shift n) := by
  let c := ofMap (Token.shift n) (fun _ => rfl) (fun _ => rfl) q.errors.toList False []
    (fun _ => rfl) nofun
  have hc : c.Holds q (ofSource b file) := {
    rules_eq := hr
    rules_eq' := rfl
    depth_eq := hd
    errors := ⟨[], (List.append_nil _).symm, .nil⟩
    pending := by
      refine ⟨_, by rw [hp]; exact (List.append_nil _).symm, ?_⟩
      exact List.forall₂_map_left_iff.2 (List.forall₂_same.2 fun _ _ => rfl)
    ending := fun _ => he
    semicolon := nofun }
  obtain ⟨ss, r, hss, hl, hp', -, hruns⟩ := exists_runs_append hrun hc
  obtain ⟨es, hes, hes'⟩ := hl.errors
  have hstop := hruns [] r (.stop (kind_current_eq_eof_iff.2 hp'))
  rw [List.append_nil, eq_map_of_forall₂ hss fun _ _ h => h.eq_mapTokens] at hstop
  refine ⟨r, hstop, ?_⟩
  rw [hes, eq_map_of_forall₂ hes' fun _ _ h => h.eq_map (g := Position.shift n) fun _ => rfl]
  rfl

end Parser

/-- A source that ends with a semicolon and one that does not start with one are read separately. -/
theorem parse_append (a b : String) (file : Option String)
    (ha : a.toList.getLast? = some ';')
    (hb : ∀ t ∈ (tokenize b file).head?, t.kind ≠ .semicolon) :
    parse (a ++ b) file =
      (⟨(parse a file).1.statements ++
          (parse b file).1.statements.map (Statement.shift (Text.byteLength a.toList))⟩,
        (parse a file).2 ++
          (parse b file).2.map (SyntaxError.shift (Text.byteLength a.toList))) := by
  obtain ⟨ss, r, hrun⟩ := Parser.exists_runs (.ofSource a file)
  obtain ⟨us, s, hrun'⟩ := Parser.exists_runs (.ofSource b file)
  obtain ⟨q, hr, hd, heq, hp, hend, hruns⟩ := Parser.exists_runs_of_front hrun ha hb
  obtain ⟨t, ht, het⟩ :=
    Parser.exists_runs_of_back hrun' hr hd hp (hend.trans (ending_ofSource_append a b file))
  rw [Parser.parse_eq_of_runs (hruns _ _ ht), Parser.parse_eq_of_runs hrun,
    Parser.parse_eq_of_runs hrun', het, heq]

theorem parse_append_broken :
    (parse ("let = é;" ++ "-; x") none).1.statements.map Statement.text = ["x"] ∧
      (parse ("let = é;" ++ "-; x") none).2.map (fun e => (e.name, e.position.offset)) =
        [("PeekMismatch", 4), ("NoPrefixParseFn", 10)] := by
  rw [parse_append "let = é;" "-; x" none (by decide +kernel) (by decide +kernel)]
  decide +kernel

end MonkeySyntax
