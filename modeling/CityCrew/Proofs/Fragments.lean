import Mathlib.Logic.Relation
import CityCrew.Proofs.Phrases

/-!
# Fragments of plans

A fragment is a part of a plan that is read in one go: a token, a phrase, or one fragment behind
the other. Any of them can be made up from tokens that occur in texts. Some tokens at the front of a
list can then make a fragment in full, or they can be the beginning of one that the next token does
not go on with. Both facts depend on the tokens up to the next one only, and both are kept when
fragments are put together.
-/

namespace CityCrew

namespace Token

variable {t : Token} {text : String}

def Occurs (t : Token) : Prop :=
  ∃ text, t ∈ (Cursor.ofString text).tokens

theorem Occurs.lexed (h : t.Occurs) : t.Lexed := by
  obtain ⟨text, ht⟩ := h
  exact lexed_of_mem_split 1 text.toList t ht

def written (text : String) : Token :=
  ⟨kindOf text, text, 1⟩

def fixedTexts : List String :=
  symbols.map String.singleton ++ reservedWords

theorem occurs_written (h : text ∈ fixedTexts) : (written text).Occurs := by
  have hTexts : ∀ text ∈ fixedTexts, written text ∈ (Cursor.ofString text).tokens := by
    decide +kernel
  exact ⟨text, hTexts text h⟩

end Token

namespace Grammar

open Token (written fixedTexts occurs_written)

variable {t : Token} {ts us pre pre' suf rest : List Token}

/-- A part of a plan. `Spans ts rest` says that it stands at the front of `ts` and leaves `rest`
behind, and `Over rest` that nothing at the front of `rest` goes on with it. -/
structure Fragment where
  Spans : List Token → List Token → Prop
  Over : List Token → Prop
  suffix : ∀ {ts rest : List Token}, Spans ts rest → rest <:+ ts
  exists_spans : ∃ us : List Token, (∀ u ∈ us, u.Occurs) ∧ ∀ rest, Spans (us ++ rest) rest

namespace Fragment

variable {F G : Fragment}

def seq (F G : Fragment) : Fragment where
  Spans := Relation.Comp F.Spans G.Spans
  Over := G.Over
  suffix := by
    rintro ts rest ⟨us, hF, hG⟩
    exact (G.suffix hG).trans (F.suffix hF)
  exists_spans := by
    obtain ⟨us, hOccur, hF⟩ := F.exists_spans
    obtain ⟨vs, hOccur', hG⟩ := G.exists_spans
    refine ⟨us ++ vs, List.forall_mem_append.mpr ⟨hOccur, hOccur'⟩, fun rest => ?_⟩
    exact ⟨vs ++ rest, by rw [List.append_assoc]; exact hF _, hG rest⟩

def single (Accepts : Token → Prop) (h : ∃ t, t.Occurs ∧ Accepts t) : Fragment where
  Spans ts rest := ∃ t, Accepts t ∧ ts = t :: rest
  Over _ := True
  suffix := by
    rintro ts rest ⟨t, -, rfl⟩
    exact List.suffix_cons _ _
  exists_spans := by
    obtain ⟨t, hOccurs, ht⟩ := h
    exact ⟨[t], by simpa using hOccurs, fun rest => ⟨t, ht, rfl⟩⟩

def fixed (text : String) (h : text ∈ fixedTexts) : Fragment :=
  single (·.Is text) ⟨written text, occurs_written h, rfl⟩

theorem exists_identifier : ∃ t, t.Occurs ∧ Identifier t :=
  ⟨written "x", ⟨"x", by decide +kernel⟩, by decide, by decide⟩

def identifier : Fragment :=
  single Identifier exists_identifier

def direction : Fragment :=
  single (fun t => ∃ d : Direction, t.Is d.keyword)
    ⟨written "up", occurs_written (by decide), .up, by decide⟩

/-- Where a fragment `G` stands behind a fragment `F`, nothing goes on with `F`. -/
def Meets (F G : Fragment) : Prop :=
  ∀ us rest, (∀ u ∈ us, u.Lexed) → G.Spans us rest → G.Over rest → F.Over us

theorem Meets.over_of_spans (h : F.Meets G) (hLexed : ∀ t ∈ ts, t.Lexed) (hF : F.Spans ts us)
    (hG : G.Spans us rest) (hOver : G.Over rest) : F.Over us :=
  h us rest (fun u hu => hLexed u ((F.suffix hF).mem hu)) hG hOver

/-- The tokens `pre` make the fragment in full if they stand before `suf`, or before other tokens
with the same first one. -/
structure Filled (F : Fragment) (pre suf : List Token) : Prop where
  spans : ∀ rest, F.Spans (pre ++ rest) rest
  eq_of_spans : ∀ {us rest : List Token}, us.head? = suf.head? → (∀ u ∈ us, u.Lexed) →
    F.Over rest → F.Spans (pre ++ us) rest → rest = us

/-- The tokens `pre` are the beginning of a fragment, but with the first token of `suf` they are
not. -/
structure Broken (F : Fragment) (pre suf : List Token) : Prop where
  exists_spans : ∃ us : List Token, (∀ u ∈ us, u.Occurs) ∧ ∀ rest, F.Spans (pre ++ us ++ rest) rest
  not_spans : ∀ {us rest : List Token}, us.head? = suf.head? → us ≠ [] → (∀ u ∈ us, u.Lexed) →
    F.Over rest → ¬ F.Spans (pre ++ us) rest

theorem head?_append_eq (h : us.head? = suf.head?) (pre : List Token) :
    (pre ++ us).head? = (pre ++ suf).head? := by
  rw [List.head?_append, List.head?_append, h]

/-- What stands behind a fragment in full is the next fragment. -/
theorem Filled.spans_behind (h : F.Filled pre (pre' ++ suf)) (hPre : ∀ t ∈ pre, t.Lexed)
    (hPre' : ∀ t ∈ pre', t.Lexed) (hMeets : F.Meets G) (hHead : us.head? = suf.head?)
    (hLexed : ∀ u ∈ us, u.Lexed) (hOver : G.Over rest)
    (hSpans : (F.seq G).Spans (pre ++ pre' ++ us) rest) : G.Spans (pre' ++ us) rest := by
  obtain ⟨vs, hF, hG⟩ := hSpans
  have hLater := List.forall_mem_append.mpr ⟨hPre', hLexed⟩
  rw [List.append_assoc] at hF
  have hMid := hMeets.over_of_spans (List.forall_mem_append.mpr ⟨hPre, hLater⟩) hF hG hOver
  rwa [← h.eq_of_spans (head?_append_eq hHead pre') hLater hMid hF]

theorem Filled.seq (h : F.Filled pre (pre' ++ suf)) (h' : G.Filled pre' suf)
    (hPre : ∀ t ∈ pre, t.Lexed) (hPre' : ∀ t ∈ pre', t.Lexed) (hMeets : F.Meets G) :
    (F.seq G).Filled (pre ++ pre') suf where
  spans rest := ⟨pre' ++ rest, by rw [List.append_assoc]; exact h.spans _, h'.spans rest⟩
  eq_of_spans hHead hLexed hOver hSpans :=
    h'.eq_of_spans hHead hLexed hOver
      (h.spans_behind hPre hPre' hMeets hHead hLexed hOver hSpans)

theorem Filled.broken (h : F.Filled pre (pre' ++ suf)) (h' : G.Broken pre' suf)
    (hPre : ∀ t ∈ pre, t.Lexed) (hPre' : ∀ t ∈ pre', t.Lexed) (hMeets : F.Meets G) :
    (F.seq G).Broken (pre ++ pre') suf where
  exists_spans := by
    obtain ⟨us, hOccur, hG⟩ := h'.exists_spans
    refine ⟨us, hOccur, fun rest => ⟨pre' ++ us ++ rest, ?_, hG rest⟩⟩
    simpa using h.spans (pre' ++ us ++ rest)
  not_spans hHead hNext hLexed hOver hSpans :=
    h'.not_spans hHead hNext hLexed hOver
      (h.spans_behind hPre hPre' hMeets hHead hLexed hOver hSpans)

theorem Broken.seq (h : F.Broken pre suf) (hPre : ∀ t ∈ pre, t.Lexed) (hMeets : F.Meets G) :
    (F.seq G).Broken pre suf where
  exists_spans := by
    obtain ⟨us, hOccur, hF⟩ := h.exists_spans
    obtain ⟨vs, hOccur', hG⟩ := G.exists_spans
    refine ⟨us ++ vs, List.forall_mem_append.mpr ⟨hOccur, hOccur'⟩, fun rest => ?_⟩
    exact ⟨vs ++ rest, by simpa using hF (vs ++ rest), hG rest⟩
  not_spans := by
    rintro us rest hHead hNext hLexed hOver ⟨vs, hF, hG⟩
    have hMid := hMeets.over_of_spans (List.forall_mem_append.mpr ⟨hPre, hLexed⟩) hF hG hOver
    exact h.not_spans hHead hNext hLexed hMid hF

/-- The first token of `suf` may be none with which a fragment begins. -/
theorem broken_nil (h : ∀ t ∈ suf.head?, t.Lexed → ∀ us rest, ¬ F.Spans (t :: us) rest) :
    F.Broken [] suf where
  exists_spans := F.exists_spans
  not_spans := by
    intro us rest hHead hNext hLexed _ hSpans
    obtain ⟨t, us, rfl⟩ := List.exists_cons_of_ne_nil hNext
    exact h t hHead.symm (hLexed t List.mem_cons_self) us rest hSpans

section

variable {Accepts : Token → Prop} {hAccepts : ∃ t, t.Occurs ∧ Accepts t}

theorem meets_single : (single Accepts hAccepts).Meets G :=
  fun _ _ _ _ _ => trivial

theorem filled_single (ht : Accepts t) : (single Accepts hAccepts).Filled [t] suf where
  spans rest := ⟨t, ht, rfl⟩
  eq_of_spans := by
    rintro us rest - - - ⟨u, -, hTokens⟩
    exact (List.cons.inj hTokens).2.symm

theorem broken_single (h : ∀ t ∈ suf.head?, t.Lexed → ¬ Accepts t) :
    (single Accepts hAccepts).Broken [] suf := by
  refine broken_nil fun t ht hLexed us rest => ?_
  rintro ⟨u, hu, hTokens⟩
  obtain ⟨rfl, -⟩ := List.cons.inj hTokens
  exact h t ht hLexed hu

end

/-- With the first token of `ts`, a fragment `G` can only be the fragment `F`. -/
structure CaseOf (F G : Fragment) (ts : List Token) : Prop where
  intro : ∀ {us rest : List Token}, F.Spans us rest → G.Spans us rest
  elim : ∀ {us rest : List Token}, us.head? = ts.head? → (∀ u ∈ us, u.Lexed) → G.Over rest →
    G.Spans us rest → F.Spans us rest
  imp_over : ∀ {rest : List Token}, G.Over rest → F.Over rest

theorem Filled.of_case (h : F.Filled pre suf) (hCase : F.CaseOf G (pre ++ suf))
    (hPre : ∀ t ∈ pre, t.Lexed) : G.Filled pre suf where
  spans rest := hCase.intro (h.spans rest)
  eq_of_spans := by
    intro us rest hHead hLexed hOver hSpans
    have hAll := List.forall_mem_append.mpr ⟨hPre, hLexed⟩
    have hCaseSpans := hCase.elim (head?_append_eq hHead pre) hAll hOver hSpans
    exact h.eq_of_spans hHead hLexed (hCase.imp_over hOver) hCaseSpans

theorem Broken.of_case (h : F.Broken pre suf) (hCase : F.CaseOf G (pre ++ suf))
    (hPre : ∀ t ∈ pre, t.Lexed) : G.Broken pre suf where
  exists_spans := by
    obtain ⟨us, hOccur, hF⟩ := h.exists_spans
    exact ⟨us, hOccur, fun rest => hCase.intro (hF rest)⟩
  not_spans := by
    intro us rest hHead hNext hLexed hOver hSpans
    have hAll := List.forall_mem_append.mpr ⟨hPre, hLexed⟩
    have hCaseSpans := hCase.elim (head?_append_eq hHead pre) hAll hOver hSpans
    exact h.not_spans hHead hNext hLexed (hCase.imp_over hOver) hCaseSpans

end Fragment

end Grammar

end CityCrew
