import Reckoner.Proofs.Formula.Scan
import Mathlib.Data.String.Basic

/-!
# Longest atoms

The tokens of a text lie in it one behind another. A loop over its characters that keeps nothing but
the byte at which an atom has begun cuts them out of the text, and these are the tokens of the scan.
`Cut` says where it cuts: white space is left out, a mark is cut out by itself, and an atom ends
only where it cannot go on.
-/

namespace Reckoner.Token

open String (utf8Len)

/-- A token and the bytes of a text that it takes, from `start` up to `stop`. -/
structure Span where
  token : Token
  start : Nat
  stop : Nat

def cutAtom (text : String) (start? : Option Nat) (stop : Nat) : List Span :=
  match start? with
  | none => []
  | some start => [⟨atom (String.Pos.Raw.extract text ⟨start⟩ ⟨stop⟩), start, stop⟩]

def cutFrom (text : String) (start? : Option Nat) (here : Nat) : List Char → List Span
  | [] => cutAtom text start? here
  | c :: cs =>
    let next := here + c.utf8Size
    match ofChar? c with
    | some token => cutAtom text start? here ++ ⟨token, here, next⟩ :: cutFrom text none next cs
    | none =>
      if Text.isBlank c then cutAtom text start? here ++ cutFrom text none next cs
      else cutFrom text (start?.or (some here)) next cs

def cut (text : String) : List Span := cutFrom text none 0 text.toList

/--
`Cut before cs spans`: the spans are those of the tokens of `cs` in a text where `before` precedes
it.
-/
inductive Cut : List Char → List Char → List Span → Prop where
  | nil {before} : Cut before [] []
  | blank {before c cs spans} (blank : Text.isBlank c = true)
    (rest : Cut (before ++ [c]) cs spans) :
      Cut before (c :: cs) spans
  | mark {before c cs token spans} (mark : ofChar? c = some token)
    (rest : Cut (before ++ [c]) cs spans) :
      Cut before (c :: cs) (⟨token, utf8Len before, utf8Len (before ++ [c])⟩ :: spans)
  | atom {before run cs spans} (ne_nil : run ≠ []) (plain : ∀ c ∈ run, IsPlain c)
    (ends : EndsAtom cs)
      (rest : Cut (before ++ run) cs spans) :
      Cut before (run ++ cs)
      (⟨.atom (String.ofList run), utf8Len before, utf8Len (before ++ run)⟩ :: spans)

/-! ## What the loop cuts out -/

def begun (before run : List Char) : Option Nat := if run = [] then none else some (utf8Len before)

theorem begun_concat (before run : List Char) (c : Char) :
    begun before (run ++ [c]) = (begun before run).or (some (utf8Len (before ++ run))) := by
  by_cases hrun : run = [] <;> simp [begun, hrun]

section
variable {text : String}

theorem Cut.append_cutAtom {before run cs : List Char} {spans : List Span}
    (htext : text.toList = before ++ run ++ cs) (hplain : ∀ c ∈ run, IsPlain c)
    (hends : EndsAtom cs) (h : Cut (before ++ run) cs spans) :
    Cut before (run ++ cs) (cutAtom text (begun before run) (utf8Len (before ++ run)) ++
      spans) := by
  by_cases hrun : run = []
  · subst hrun
    rwa [List.append_nil] at h
  · have hslice : String.Pos.Raw.extract text ⟨utf8Len before⟩ ⟨utf8Len (before ++ run)⟩ =
        String.ofList run := by
      rw [← @String.ofList_toList text, htext, String.utf8Len_append]
      exact String.extract_of_valid before run cs
    simp only [begun, hrun, if_false, cutAtom, hslice, List.singleton_append]
    exact .atom hrun hplain hends h

theorem cut_cutFrom : ∀ (cs before run : List Char), text.toList = before ++ run ++ cs →
    (∀ c ∈ run, IsPlain c) →
    Cut before (run ++ cs) (cutFrom text (begun before run) (utf8Len (before ++ run)) cs) := by
  intro cs
  induction cs with
  | nil =>
    intro before run htext hplain
    have hends : EndsAtom [] := endsAtom_iff.2 (by simp)
    simpa [cutFrom] using Cut.append_cutAtom htext hplain hends .nil
  | cons c cs ih =>
    intro before run htext hplain
    have hnext : utf8Len (before ++ run) + c.utf8Size = utf8Len (before ++ run ++ [c]) := by
      simp [Nat.add_assoc]
    -- after a break the rest is cut as if no atom had been before it
    have hrest : Cut (before ++ run ++ [c]) cs
        (cutFrom text none (utf8Len (before ++ run ++ [c])) cs) := by
      simpa [begun] using ih (before ++ run ++ [c]) [] (by simpa using htext) (by simp)
    have hends : IsBreak c → EndsAtom (c :: cs) := fun hc => endsAtom_iff.2 (by simpa using hc)
    rw [cutFrom, hnext]
    cases hc : ofChar? c with
    | some token =>
      have hmark : c ∈ marks := exists_ofChar?_iff.1 ⟨token, hc⟩
      exact (hrest.mark hc).append_cutAtom htext hplain (hends (.inl hmark))
    | none =>
      by_cases hb : Text.isBlank c = true
      · simp only [hb, if_true]
        exact (hrest.blank hb).append_cutAtom htext hplain (hends (.inr hb))
      · have hplain' : ∀ d ∈ run ++ [c], IsPlain d := by
          intro d hd
          rcases List.mem_append.1 hd with hd | hd
          · exact hplain d hd
          · obtain rfl := List.mem_singleton.1 hd
            exact ⟨hc, by simpa using hb⟩
        simp only [hb, ← begun_concat before run c]
        simpa using ih before (run ++ [c]) (by simpa using htext) hplain'

end

theorem cut_spec (text : String) : Cut [] text.toList (cut text) :=
  cut_cutFrom text.toList [] [] rfl (by simp)

/-! ## Where the tokens lie -/

def Span.LiesIn (s : Span) (text : List Char) : Prop :=
  ∃ before after, text = before ++ s.token.text.toList ++ after ∧
    s.start = utf8Len before ∧ s.stop = utf8Len (before ++ s.token.text.toList)

def InAtom (spans : List Span) (start stop : Nat) : Prop :=
  ∃ s ∈ spans, (∃ word, s.token = .atom word) ∧ s.start ≤ start ∧ stop ≤ s.stop

theorem InAtom.cons {spans : List Span} {start stop : Nat} (h : InAtom spans start stop)
    (s : Span) : InAtom (s :: spans) start stop := by
  obtain ⟨s', hs, hspan⟩ := h
  exact ⟨s', List.mem_cons_of_mem _ hs, hspan⟩

namespace Cut

variable {before cs : List Char} {spans : List Span} (h : Cut before cs spans)
include h

theorem map_token : spans.map Span.token = scanFrom [] cs := by
  induction h with
  | nil => rfl
  | blank hblank _ ih => rw [scanFrom_of_isBlank hblank, ih]
  | mark hmark _ ih => rw [scanFrom_of_ofChar? hmark, List.map_cons, ih]
  | atom hne hplain hends _ ih => rw [scanFrom_atom hne hplain hends, List.map_cons, ih]

theorem flatMap_text : spans.flatMap (fun s => s.token.text.toList) = cs.filter fun c =>
    !Text.isBlank c := by
  induction h with
  | nil => rfl
  | blank hblank _ ih => rw [List.filter_cons_of_neg (by simp [hblank]), ih]
  | mark hmark _ ih =>
    rw [List.filter_cons_of_pos (by simp [isBlank_of_ofChar? hmark]), List.flatMap_cons, ih,
      text_of_ofChar? hmark]
    simp
  | @atom _ run _ _ _ hplain _ _ ih =>
    have hrun : run.filter (fun c => !Text.isBlank c) = run :=
      List.filter_eq_self.2 fun c hc => by simp [(hplain c hc).2]
    rw [List.filter_append, hrun, List.flatMap_cons, ih, text, String.toList_ofList]

theorem liesIn {s : Span} (hs : s ∈ spans) : s.LiesIn (before ++ cs) := by
  induction h with
  | nil => cases hs
  | blank _ _ ih => simpa using ih hs
  | @mark before c cs token spans hmark _ ih =>
    rcases List.mem_cons.1 hs with rfl | hs
    · have htext : token.text.toList = [c] := by rw [text_of_ofChar? hmark, String.toList_singleton]
      exact ⟨before, cs, by simp [htext], rfl, by rw [htext]⟩
    · simpa using ih hs
  | @atom before run cs _ _ _ _ _ ih =>
    rcases List.mem_cons.1 hs with rfl | hs
    · exact ⟨before, cs, by simp [text], rfl, by simp [text]⟩
    · simpa using ih hs

theorem le_start {s : Span} (hs : s ∈ spans) : utf8Len before ≤ s.start := by
  induction h with
  | nil => cases hs
  | blank _ _ ih => exact Nat.le_trans (by simp) (ih hs)
  | mark _ _ ih | atom _ _ _ _ ih =>
    rcases List.mem_cons.1 hs with rfl | hs
    · exact Nat.le_refl _
    · exact Nat.le_trans (by simp) (ih hs)

theorem pairwise : spans.Pairwise fun s s' => s.stop ≤ s'.start := by
  induction h with
  | nil => exact .nil
  | blank _ _ ih => exact ih
  | mark _ rest ih | atom _ _ _ rest ih => exact .cons (fun _ => rest.le_start) ih

theorem mem_of_mark (xs : List Char) {ys : List Char} {c : Char} {token : Token}
    (hcs : cs = xs ++ c :: ys) (hc : ofChar? c = some token) :
    ⟨token, utf8Len (before ++ xs), utf8Len (before ++ xs ++ [c])⟩ ∈ spans := by
  induction h generalizing xs with
  | nil => simp at hcs
  | blank hblank _ ih =>
    rcases List.cons_eq_append_iff.1 hcs with ⟨-, he⟩ | ⟨xs', rfl, he⟩
    · cases he
      rw [ofChar?_of_isBlank hblank] at hc
      cases hc
    · simpa using ih _ he
  | mark hmark _ ih =>
    rcases List.cons_eq_append_iff.1 hcs with ⟨rfl, he⟩ | ⟨xs', rfl, he⟩
    · cases he
      cases hmark.symm.trans hc
      simp
    · exact List.mem_cons_of_mem _ (by simpa using ih _ he)
  | atom _ hplain _ _ ih =>
    rcases List.append_eq_append_iff.1 hcs with ⟨xs', rfl, he⟩ | ⟨run', rfl, he⟩
    · exact List.mem_cons_of_mem _ (by simpa using ih _ he)
    · cases run' with
      | nil => exact List.mem_cons_of_mem _ (by simpa using ih [] he.symm)
      | cons d run' =>
        cases he
        rw [(hplain c (by simp)).1] at hc
        cases hc

theorem of_atom {s : Span} (hs : s ∈ spans) {word : String} (hw : s.token = .atom word) :
    word ≠ "" ∧ ∀ c ∈ word.toList, IsPlain c := by
  induction h with
  | nil => cases hs
  | blank _ _ ih => exact ih hs
  | mark hmark _ ih =>
    rcases List.mem_cons.1 hs with rfl | hs
    · exact absurd hw (ne_atom_of_ofChar? hmark word)
    · exact ih hs
  | atom hne hplain _ _ ih =>
    rcases List.mem_cons.1 hs with rfl | hs
    · cases hw
      exact ⟨by simpa using hne, by simpa using hplain⟩
    · exact ih hs

/-- No atom ends before a part without breaks does. -/
theorem inAtom (xs : List Char) {part ys : List Char} (hcs : cs = xs ++ part ++ ys)
    (hne : part ≠ []) (hpart : ∀ c ∈ part, IsPlain c) :
    InAtom spans (utf8Len (before ++ xs)) (utf8Len (before ++ xs ++ part)) := by
  obtain ⟨d, ds, rfl⟩ := List.exists_cons_of_ne_nil hne
  obtain ⟨hmark', hblank'⟩ := hpart d (by simp)
  induction h generalizing xs with
  | nil => simp at hcs
  | blank hblank _ ih =>
    rw [List.append_assoc] at hcs
    rcases List.cons_eq_append_iff.1 hcs with ⟨-, he⟩ | ⟨xs', rfl, he⟩
    · cases he
      rw [hblank] at hblank'
      cases hblank'
    · simpa using ih xs' (by simpa using he)
  | mark hmark _ ih =>
    rw [List.append_assoc] at hcs
    rcases List.cons_eq_append_iff.1 hcs with ⟨-, he⟩ | ⟨xs', rfl, he⟩
    · cases he
      rw [hmark] at hmark'
      cases hmark'
    · simpa using (ih xs' (by simpa using he)).cons _
  | @atom before run cs spans _ _ hends _ ih =>
    rw [List.append_assoc] at hcs
    rcases List.append_eq_append_iff.1 hcs with ⟨xs', rfl, he⟩ | ⟨run', rfl, he⟩
    · simpa using (ih xs' (by simpa using he)).cons _
    · cases run' with
      | nil => simpa using (ih [] (by simpa using he.symm)).cons _
      | cons e run' =>
        refine ⟨_, List.mem_cons_self, ⟨_, rfl⟩, by simp, ?_⟩
        -- the part begins in this atom, and the character that follows the atom is not in it
        rcases List.append_eq_append_iff.1 he with ⟨as, hrun, -⟩ | ⟨bs, hds, hbs⟩
        · simp [hrun]
        · cases bs with
          | nil => simp [hds]
          | cons b bs => exact absurd (hpart b (by simp [hds])) (hends b _ hbs)

end Cut

theorem of_atom_mem_scan {text word : String} (h : .atom word ∈ scan text) :
    word ≠ "" ∧ ∀ c ∈ word.toList, IsPlain c := by
  rw [scan, ← (cut_spec text).map_token] at h
  obtain ⟨s, hs, hw⟩ := List.mem_map.1 h
  exact (cut_spec text).of_atom hs hw

/-! ## Two characters in one atom -/

def Span.Covers (s : Span) (byte : Nat) : Prop := s.start ≤ byte ∧ byte < s.stop

/-- One atom of the text takes both bytes. -/
def SameAtom (text : String) (byte byte' : Nat) : Prop :=
  ∃ s ∈ cut text, (∃ word, s.token = .atom word) ∧ s.Covers byte ∧ s.Covers byte'

theorem prefix_of_utf8Len_le {xs ys cs : List Char} (hx : xs <+: cs) (hy : ys <+: cs)
    (h : utf8Len xs ≤ utf8Len ys) : xs <+: ys := by
  rcases List.prefix_or_prefix_of_prefix hx hy with hxy | ⟨rest, rfl⟩
  · exact hxy
  · have hrest : utf8Len rest = 0 := by
      rw [String.utf8Len_append] at h
      omega
    obtain rfl := String.utf8Len_eq_zero.1 hrest
    simp

theorem concat_prefix_of_utf8Len_lt {xs ys cs : List Char} {c : Char} (hx : xs ++ [c] <+: cs)
    (hy : ys <+: cs) (h : utf8Len xs < utf8Len ys) : xs ++ [c] <+: ys := by
  rcases List.prefix_or_prefix_of_prefix hx hy with hxy | hyx
  · exact hxy
  · rcases List.prefix_concat_iff.1 hyx with rfl | hyx
    · exact List.prefix_refl _
    · exact absurd (String.utf8Len_le_of_prefix hyx) (Nat.not_le.2 h)

section
variable {text : String} {before between after : List Char} {c d : Char}
  (htext : text.toList = before ++ c :: (between ++ d :: after))
include htext

theorem isPlain_of_sameAtom
    (h : SameAtom text (utf8Len before) (utf8Len (before ++ c :: between))) :
    ∀ x ∈ c :: (between ++ [d]), IsPlain x := by
  obtain ⟨s, hs, ⟨word, hw⟩, ⟨hstart, -⟩, -, hstop⟩ := h
  obtain ⟨ahead, rest, hword, hahead, hend⟩ := (cut_spec text).liesIn hs
  rw [List.nil_append] at hword
  rw [hahead] at hstart
  rw [hend] at hstop
  have hchars : before ++ c :: between ++ [d] <+: text.toList := ⟨after, by simp [htext]⟩
  have hspan : ahead ++ s.token.text.toList <+: text.toList := ⟨rest, hword.symm⟩
  have hbefore : before <+: text.toList := ⟨_, htext.symm⟩
  -- the atom begins no later than `c` and ends no earlier than `d`
  obtain ⟨xs, rfl⟩ := prefix_of_utf8Len_le ((List.prefix_append ahead _).trans hspan) hbefore hstart
  obtain ⟨ys, hys⟩ := concat_prefix_of_utf8Len_lt hchars hspan hstop
  have hparts : word.toList = xs ++ c :: (between ++ [d]) ++ ys := by
    have hcancel : ahead ++ (xs ++ c :: (between ++ [d]) ++ ys) = ahead ++ s.token.text.toList := by
      simpa using hys
    rw [List.append_cancel_left hcancel, hw]
    rfl
  intro x hx
  refine ((cut_spec text).of_atom hs hw).2 x ?_
  rw [hparts]
  exact List.mem_append_left _ (List.mem_append_right _ hx)

theorem sameAtom_of_isPlain (h : ∀ x ∈ c :: (between ++ [d]), IsPlain x) :
    SameAtom text (utf8Len before) (utf8Len (before ++ c :: between)) := by
  have hparts : text.toList = before ++ c :: (between ++ [d]) ++ after := by simp [htext]
  obtain ⟨s, hs, hword, hstart, hstop⟩ := (cut_spec text).inAtom before hparts (by simp) h
  have hc := c.utf8Size_pos
  have hd := d.utf8Size_pos
  simp only [List.nil_append, String.utf8Len_append, String.utf8Len_cons,
    String.utf8Len_nil] at hstart hstop
  refine ⟨s, hs, hword, ⟨hstart, ?_⟩, ?_, ?_⟩
  · omega
  · simp only [String.utf8Len_append]
    omega
  · simp only [String.utf8Len_append, String.utf8Len_cons]
    omega

end

/--
The tokens lie in the text in order, and together they are the text without its white space.
Operators and parentheses are tokens by themselves. Atoms are not empty and hold no break, and two
characters are in one atom exactly when there is no break among them and the characters between
them. White space beside a break or an end of the text makes no difference to the tokens, nor to the
formula that is read.
-/
theorem maximal_munch :
    (∀ text : String,
      String.join ((scan text).map Token.text) =
        String.ofList (text.toList.filter fun c => !Text.isBlank c) ∧
      (cut text).map Span.token = scan text ∧
      (∀ s ∈ cut text, s.LiesIn text.toList) ∧
      (cut text).Pairwise (fun s s' => s.stop ≤ s'.start) ∧
      (∀ before c after, text.toList = before ++ c :: after → c ∈ marks →
        ∃ token, ⟨token, utf8Len before, utf8Len (before ++ [c])⟩ ∈ cut text ∧
          token.text = String.singleton c ∧ ∀ word, token ≠ .atom word) ∧
      (∀ word, .atom word ∈ scan text → word ≠ "" ∧ ∀ c ∈ word.toList, ¬ IsBreak c) ∧
      ∀ before c between d after, text.toList = before ++ c :: (between ++ d :: after) →
        (SameAtom text (utf8Len before) (utf8Len (before ++ c :: between)) ↔
          ∀ x ∈ c :: (between ++ [d]), ¬ IsBreak x)) ∧
    ∀ before blanks after : String, Text.isBlankText blanks = true →
      ((∀ c ∈ before.toList.getLast?, IsBreak c) ∨ ∀ c ∈ after.toList.head?, IsBreak c) →
      scan (before ++ blanks ++ after) = scan (before ++ after) ∧
        Formula.parse (before ++ blanks ++ after) = Formula.parse (before ++ after) := by
  refine ⟨fun text => ?_, fun before blanks after hblank hbreak => ?_⟩
  · have hcut := cut_spec text
    have htokens : (cut text).map Span.token = scan text := hcut.map_token
    refine ⟨?_, htokens, fun s hs => hcut.liesIn hs, hcut.pairwise, ?_, ?_, ?_⟩
    · rw [String.join_eq, ← hcut.flatMap_text, ← htokens, List.map_map, List.map_map,
        List.flatMap_def]
      rfl
    · intro before c after htext hc
      obtain ⟨token, ht⟩ := exists_ofChar?_iff.2 hc
      exact ⟨token, hcut.mem_of_mark before htext ht, text_of_ofChar? ht, ne_atom_of_ofChar? ht⟩
    · intro word hword
      obtain ⟨hne, hplain⟩ := of_atom_mem_scan hword
      exact ⟨hne, fun c hc => isPlain_iff.1 (hplain c hc)⟩
    · intro before c between d after htext
      simp only [← isPlain_iff]
      exact ⟨isPlain_of_sameAtom htext, sameAtom_of_isPlain htext⟩
  · have hscan : scan (before ++ blanks ++ after) = scan (before ++ after) := by
      simp only [scan, String.toList_append]
      exact scanFrom_append_blank hblank hbreak
    exact ⟨hscan, by rw [Formula.parse, hscan, Formula.parse]⟩

/-- An atom of two characters and three bytes, and a wide space before an operator. -/
theorem maximal_munch_of_wide_space :
    let text := "7½\u2003*2"
    SameAtom text 0 1 ∧ ¬ SameAtom text 1 7 ∧ "7½" ≠ "" ∧
      (∃ s ∈ cut text, s.token.text = "*" ∧ s.start = 6 ∧ s.LiesIn text.toList) ∧
      Formula.parse text = Formula.parse "7½*2" := by
  intro text
  obtain ⟨htext, hspace⟩ := maximal_munch
  obtain ⟨-, -, hlies, -, hmark, hatom, hsame⟩ := htext text
  have hchars : "7½\u2003*2".toList = ['7', '½', '\u2003', '*', '2'] := rfl
  have hplain : ¬ IsBreak '7' ∧ ¬ IsBreak '½' := by decide
  have hstar : IsBreak '*' := by decide
  have hseven : SameAtom text 0 1 :=
    (hsame [] '7' [] '½' ['\u2003', '*', '2'] hchars).2 (by simpa using hplain)
  have htwo : ¬ SameAtom text 1 7 := fun h =>
    (hsame ['7'] '½' ['\u2003', '*'] '2' [] hchars).1 h '*' (by simp) hstar
  have hword : "7½" ≠ "" := (hatom "7½" (by decide)).1
  obtain ⟨token, hs, ht, -⟩ := hmark ['7', '½', '\u2003'] '*' ['2'] hchars (by decide)
  have hnext : ∀ c ∈ "*2".toList.head?, IsBreak c := by
    have hhead : "*2".toList.head? = some '*' := rfl
    rw [hhead]
    simpa using hstar
  have hread : Formula.parse text = Formula.parse "7½*2" :=
    (hspace "7½" "\u2003" "*2" (by decide) (.inr hnext)).2
  exact ⟨hseven, htwo, hword, ⟨_, hs, ht, rfl, hlies _ hs⟩, hread⟩

end Reckoner.Token
