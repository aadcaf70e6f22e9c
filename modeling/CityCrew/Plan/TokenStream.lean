import CityCrew.Plan.Cursor

/-!
# Token streams

A token stream reads its text as it goes and has read one token ahead. It answers as a cursor over
the token list of the text does; `TokenStream.toCursor` is that cursor.
-/

namespace CityCrew

structure TokenStream where
  /-- The token read ahead, or `none` at the end. -/
  ahead : Option Token
  rest : List Char
  /-- The line that the reading has reached. -/
  reached : Nat

namespace TokenStream

def read (line : Nat) (cs : List Char) : TokenStream :=
  match Token.skipBlanks line cs with
  | (start, []) => ⟨none, [], start⟩
  | (start, c :: rest) =>
    let (token, rest) := Token.first start c rest
    ⟨some token, rest, start⟩

def ofString (text : String) : TokenStream :=
  read 1 text.toList

def hasNext (s : TokenStream) : Bool :=
  s.ahead.isSome

def peek? (s : TokenStream) : Option Token :=
  s.ahead

def nextIs (s : TokenStream) (text : String) : Bool :=
  s.ahead.any (·.Is text)

def consume (s : TokenStream) : Option Token × TokenStream :=
  (s.ahead, read s.reached s.rest)

def line (s : TokenStream) : Nat :=
  (s.ahead.map (·.line)).getD s.reached

def expect (s : TokenStream) (expected : String) : Except SyntaxError (Token × TokenStream) :=
  match s.ahead with
  | some t =>
    if t.Is expected then .ok (t, s.consume.2)
    else .error ⟨t.line, .unexpectedToken expected t.text⟩
  | none => .error ⟨s.reached, .unexpectedEnd⟩

/-- The cursor over everything that the stream has still to give. -/
def toCursor (s : TokenStream) : Cursor :=
  let (tokens, last) := Token.split s.reached s.rest
  ⟨s.ahead.toList ++ tokens, last⟩

end TokenStream

end CityCrew
