import Reckoner.Proofs.Formula.Grammar
import Reckoner.Proofs.Formula.Munch
import Reckoner.Proofs.Formula.Number

/-!
# Printed formulas

A printed formula has parentheses around every operation, so its tokens can be told from its tree,
and the grammar derives the tree from them. Its numbers have to be printed as atoms, which negative
ones are not. A formula that was read has no negative numbers, since no atom has a sign.
-/

namespace Reckoner.Formula

def literals : Formula → List Float
  | number v => [v]
  | binary _ left right => left.literals ++ right.literals

/-! ## The tokens of a printed formula -/

def tokens : Formula → List Token
  | number v => [.atom (Layout.plain.text v)]
  | binary op left right => .openParen :: (left.tokens ++ .op op :: right.tokens) ++ [.closeParen]

theorem toList_render_binary (op : Operator) (left right : Formula) (rest : List Char) :
    (binary op left right).render.toList ++ rest =
      '(' ::
      (left.render.toList ++ ' ' :: op.symbol :: ' ' :: (right.render.toList ++ ')' :: rest)) := by
  simp [render, toString]

theorem scanFrom_render {a : Formula} (h : ∀ v ∈ a.literals, Printable v) :
    ∀ rest, Token.EndsAtom rest →
    Token.scanFrom [] (a.render.toList ++ rest) = a.tokens ++ Token.scanFrom [] rest := by
  induction a with
  | number v =>
    intro rest hr
    have hv := h v (by simp [literals])
    rw [render, Token.scanFrom_atom hv.ne_nil hv.isPlain hr, String.ofList_toList]
    rfl
  | binary op left right ihl ihr =>
    intro rest hr
    have hspace : ∀ cs, Token.EndsAtom (' ' :: cs) := by
      rintro cs _ _ ⟨⟩ ⟨-, hc⟩
      revert hc
      decide
    have hclose : Token.EndsAtom (')' :: rest) := by
      rintro _ _ ⟨⟩ ⟨hc, -⟩
      revert hc
      decide
    have hblank := Token.scanFrom_of_isBlank (c := ' ') (by decide)
    have hopenParen : Token.ofChar? '(' = some .openParen := rfl
    have hcloseParen : Token.ofChar? ')' = some .closeParen := rfl
    rw [toList_render_binary, Token.scanFrom_of_ofChar? hopenParen,
      ihl (fun v hv => h v (by simp [literals, hv])) _ (hspace _), hblank,
      Token.scanFrom_of_ofChar? (Token.ofChar?_symbol op), hblank,
      ihr (fun v hv => h v (by simp [literals, hv])) _ hclose,
      Token.scanFrom_of_ofChar? hcloseParen]
    simp [tokens]

theorem derives_tokens {a : Formula} (h : ∀ v ∈ a.literals, Printable v) :
    Derives .factor a.tokens a := by
  induction a with
  | number v => exact .number (h v (by simp [literals])).reads
  | binary op left right ihl ihr =>
    have hl := ihl fun v hv => h v (by simp [literals, hv])
    have hr := ihr fun v hv => h v (by simp [literals, hv])
    refine .parens ?_
    by_cases hop : op.isMultiplicative = true
    · exact .term (.product (.factor hl) hop hr)
    · exact .sum (.term (.factor hl)) (by simpa using hop) (.factor hr)

theorem parse_render {a : Formula} (h : ∀ v ∈ a.literals, Printable v) :
    parse a.render = .ok a := by
  have hscan : Token.scan a.render = a.tokens := by
    simpa [Token.scan, Token.scanFrom, Token.consAtom] using scanFrom_render h [] (by rintro _ _ ⟨⟩)
  rw [parse, hscan]
  exact ofTokens_eq_ok_iff.2 (.term (.factor (derives_tokens h)))

/-! ## The numbers of a formula that has been read -/

theorem Derives.exists_atom {c : Category} {ts : List Token} {a : Formula} (h : Derives c ts a)
    {v : Float} (hv : v ∈ a.literals) : ∃ text, .atom text ∈ ts ∧ number? text = some v := by
  induction h with
  | term _ ih | factor _ ih => exact ih hv
  | sum _ _ _ ihl ihr | product _ _ _ ihl ihr =>
    rcases List.mem_append.1 hv with hv | hv
    · obtain ⟨text, hm, hn⟩ := ihl hv
      exact ⟨text, by simp [hm], hn⟩
    · obtain ⟨text, hm, hn⟩ := ihr hv
      exact ⟨text, by simp [hm], hn⟩
  | @number text w hw =>
    obtain rfl := List.mem_singleton.1 hv
    exact ⟨text, by simp, hw⟩
  | parens _ ih =>
    obtain ⟨text, hm, hn⟩ := ih hv
    exact ⟨text, by simp [hm], hn⟩

theorem printable_of_parse {text : String} {a : Formula} (h : parse text = .ok a) :
    ∀ v ∈ a.literals, Printable v := by
  intro v hv
  have hd : Derives .expression (Token.scan text) a := ofTokens_eq_ok_iff.1 h
  obtain ⟨t, hm, hn⟩ := hd.exists_atom hv
  refine printable_of_isUnsigned (isUnsigned_of_number? (fun hminus => ?_) hn)
  have hplain := (Token.of_atom_mem_scan hm).2 '-' hminus
  exact absurd hplain.1 (by decide)

/--
A printed formula is read back if each of its numbers is printed as one atom that is read back as
the same number, and the numbers of every formula that was read from a text are of this kind.
-/
theorem printed_reads_back :
    (∀ a : Formula, (∀ v ∈ a.literals, Printable v) → parse a.render = .ok a) ∧
      ∀ (text : String) (a : Formula), parse text = .ok a →
        (∀ v ∈ a.literals, Printable v) ∧ parse a.render = .ok a :=
  ⟨fun _ => parse_render, fun _ _ h => ⟨printable_of_parse h, parse_render (printable_of_parse h)⟩⟩

theorem printed_reads_back_of_quotient :
    let a : Formula :=
      .binary .div (.binary .add (.number 8.0) (.number 0.25)) (.number (0.0 / 0.0))
    parse "(8 + .25)/nan" = .ok a ∧ parse a.render = .ok a := by
  intro a
  have ha : parse "(8 + .25)/nan" = .ok a := rfl
  have hv : ∀ v ∈ a.literals, Printable v := (printed_reads_back.2 _ _ ha).1
  exact ⟨ha, printed_reads_back.1 a hv⟩

end Reckoner.Formula
