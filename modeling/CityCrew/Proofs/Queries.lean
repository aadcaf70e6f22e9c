import CityCrew.Proofs.Lexing
import CityCrew.Proofs.RelatedRuns

/-!
# Token streams as cursors

A token stream has always read one token ahead, and its count of lines runs ahead of the tokens that
it has given. Nothing of this can be seen from outside: in whatever order a stream is queried, it
answers like a number that counts the tokens passed in a list which never changes.
-/

namespace CityCrew

namespace TokenStream

inductive Query where
  | hasNext
  | peek
  | nextIs (text : String)
  | consume
  | expect (text : String)
  | line
deriving DecidableEq

inductive Reply where
  | truth (holds : Bool)
  | token (t : Option Token)
  | outcome (result : Except SyntaxError Token)
  | line (n : Nat)
deriving DecidableEq

/-- The stream itself answers. It stays as it is when something else comes than expected. -/
def answer (query : Query) (s : TokenStream) : Reply × TokenStream :=
  match query with
  | .hasNext => (.truth s.hasNext, s)
  | .peek => (.token s.peek?, s)
  | .nextIs text => (.truth (s.nextIs text), s)
  | .consume => (.token s.consume.1, s.consume.2)
  | .expect text =>
    match s.expect text with
    | .ok (t, s') => (.outcome (.ok t), s')
    | .error e => (.outcome (.error e), s)
  | .line => (.line s.line, s)

/-- What a query finds behind the first `n` of `tokens`, and how many tokens it leaves passed. The
text that the tokens come from ends on the line `last`. -/
def answerAt (tokens : List Token) (last : Nat) (query : Query) (n : Nat) : Reply × Nat :=
  match query with
  | .hasNext => (.truth (decide (n < tokens.length)), n)
  | .peek => (.token tokens[n]?, n)
  | .nextIs text => (.truth (tokens[n]?.any fun t => t.text = text), n)
  | .consume => (.token tokens[n]?, min (n + 1) tokens.length)
  | .expect text =>
    match tokens[n]? with
    | some t =>
      if t.text = text then (.outcome (.ok t), n + 1)
      else (.outcome (.error ⟨t.line, .unexpectedToken text t.text⟩), n)
    | none => (.outcome (.error ⟨last, .unexpectedEnd⟩), n)
  | .line => (.line (tokens[n]?.elim last Token.line), n)

/-- What the stream has still to give is the list without its first `n` tokens. -/
structure StandsAt (tokens : List Token) (last : Nat) (s : TokenStream) (n : Nat) : Prop where
  sound : s.Sound
  toCursor_eq : s.toCursor = ⟨tokens.drop n, last⟩
  le_length : n ≤ tokens.length

variable {tokens : List Token} {last n : Nat} {s : TokenStream} {t : Token}

theorem standsAt_ofString (text : String) :
    StandsAt (Cursor.ofString text).tokens (Cursor.ofString text).endLine (ofString text) 0 where
  sound := sound_read _ _
  toCursor_eq := toCursor_read _ _
  le_length := Nat.zero_le _

namespace StandsAt

theorem ahead_eq (h : StandsAt tokens last s n) : s.ahead = tokens[n]? := by
  calc
    s.ahead = s.toCursor.peek? := h.sound.peek?_toCursor.symm
    _ = (tokens.drop n).head? := by rw [h.toCursor_eq, Cursor.peek?]
    _ = tokens[n]? := List.head?_drop

theorem line_eq (h : StandsAt tokens last s n) : s.line = tokens[n]?.elim last Token.line := by
  rw [← h.sound.line_toCursor, h.toCursor_eq, Cursor.line, Cursor.peek?, List.head?_drop]
  cases tokens[n]? <;> rfl

theorem reached_eq (h : StandsAt tokens last s n) (hEnd : tokens[n]? = none) : s.reached = last := by
  have hLine := h.line_eq
  rw [line, h.ahead_eq, hEnd] at hLine
  exact hLine

theorem next (h : StandsAt tokens last s n) :
    StandsAt tokens last s.consume.2 (min (n + 1) tokens.length) where
  sound := sound_read _ _
  toCursor_eq := by
    rw [h.sound.toCursor_consume, h.toCursor_eq, Cursor.advance, List.tail_drop]
    rcases Nat.lt_or_ge n tokens.length with hLt | hGe
    · rw [Nat.min_eq_left hLt]
    · rw [Nat.min_eq_right (Nat.le_succ_of_le hGe), List.drop_length,
        List.drop_eq_nil_of_le (Nat.le_succ_of_le hGe)]
  le_length := Nat.min_le_right _ _

theorem pass (h : StandsAt tokens last s n) (ht : tokens[n]? = some t) :
    StandsAt tokens last s.consume.2 (n + 1) := by
  have hNext := h.next
  obtain ⟨hLt, -⟩ := List.getElem?_eq_some_iff.mp ht
  rwa [Nat.min_eq_left hLt] at hNext

end StandsAt

/-- One query: the stream and the list give the same answer, and keep in step. -/
theorem answer_standsAt (h : StandsAt tokens last s n) (query : Query) :
    (answer query s).1 = (answerAt tokens last query n).1 ∧
      StandsAt tokens last (answer query s).2 (answerAt tokens last query n).2 := by
  have hAhead := h.ahead_eq
  cases query with
  | hasNext =>
    have hSome : tokens[n]?.isSome = decide (n < tokens.length) := by
      rw [Bool.eq_iff_iff, decide_eq_true_iff, isSome_getElem?]
    refine ⟨?_, h⟩
    rw [answer, answerAt, hasNext, hAhead, hSome]
  | peek => exact ⟨congrArg Reply.token hAhead, h⟩
  | nextIs text =>
    refine ⟨?_, h⟩
    rw [answer, answerAt, nextIs, hAhead]
    rfl
  | consume => exact ⟨congrArg Reply.token hAhead, h.next⟩
  | expect text =>
    simp only [answer, answerAt, expect, hAhead, Token.Is]
    cases ht : tokens[n]? with
    | none =>
      refine ⟨?_, h⟩
      rw [h.reached_eq ht]
    | some t =>
      by_cases hText : t.text = text
      · simp only [hText, if_true]
        exact ⟨trivial, h.pass ht⟩
      · simp only [hText, if_false]
        exact ⟨trivial, h⟩
  | line => exact ⟨congrArg Reply.line h.line_eq, h⟩

theorem respects_answer (query : Query) : Respects (StandsAt tokens last)
    (answer query : StateM TokenStream Reply) (answerAt tokens last query : StateM Nat Reply) :=
  fun _ _ h => answer_standsAt h query

/-- A token stream is a cursor over the tokens of its text. Every sequence of queries gets the
answers that the list of these tokens gives at a place which only `consume` and a met expectation
move on, and which never passes the end. -/
theorem stream_is_cursor (text : String) : ∃ pieces tail,
    Token.Factors [] text.toList pieces tail ∧
    ∀ queries : List Query,
      ((queries.mapM answer : StateM TokenStream (List Reply)).run (ofString text)).1 =
        ((queries.mapM (answerAt (pieces.map Token.Piece.token) (1 + text.toList.count '\n')) :
          StateM Nat (List Reply)).run 0).1 := by
  obtain ⟨pieces, tail, hFactors, hSplit⟩ := Token.exists_factors [] text.toList Token.seam_nil
  refine ⟨pieces, tail, hFactors, fun queries => ?_⟩
  have hStart := standsAt_ofString text
  have hTokens : (Cursor.ofString text).tokens = pieces.map Token.Piece.token :=
    congrArg Prod.fst hSplit
  have hEnd : (Cursor.ofString text).endLine = 1 + text.toList.count '\n' :=
    congrArg Prod.snd hSplit
  rw [hTokens, hEnd] at hStart
  exact (Respects.mapM respects_answer queries _ _ hStart).1

/-- The line break between the parentheses counts for the second one only. -/
example : ((List.mapM answer [.line, .expect "(", .expect "=", .consume, .consume, .expect ")"] :
    StateM TokenStream (List Reply)).run (ofString "(\n)")).1 =
      [.line 1, .outcome (.ok ⟨.symbol, "(", 1⟩),
        .outcome (.error ⟨2, .unexpectedToken "=" ")"⟩), .token (some ⟨.symbol, ")", 2⟩), .token none,
        .outcome (.error ⟨2, .unexpectedEnd⟩)] := by
  decide +kernel

end TokenStream

end CityCrew
