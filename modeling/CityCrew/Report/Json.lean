import CityCrew.Decimal.Shortest

/-!
# JSON texts

Reports for other programs are JSON values. They are written over several lines, every level two
spaces further to the right; the fields of a record keep their order.
-/

namespace CityCrew.Report

inductive Json where
  | null
  | integer (n : Int)
  | real (x : Float)
  | text (s : String)
  | list (items : List Json)
  | record (fields : List (String × Json))

namespace Json

def ofInt? : Option Int → Json
  | some n => integer n
  | none => null

def escape (c : Char) : List Char :=
  match c with
  | '"' => ['\\', '"']
  | '\\' => ['\\', '\\']
  | '\x08' => ['\\', 'b']
  | '\x09' => ['\\', 't']
  | '\x0a' => ['\\', 'n']
  | '\x0c' => ['\\', 'f']
  | '\x0d' => ['\\', 'r']
  | _ =>
    if c.toNat < 32 then
      ['\\', 'u', '0', '0', Nat.digitChar (c.toNat / 16), Nat.digitChar (c.toNat % 16)]
    else [c]

def quoted (s : String) : String :=
  String.ofList ('"' :: s.toList.flatMap escape ++ ['"'])

def indentation (depth : Nat) : String :=
  String.ofList (List.replicate (2 * depth) ' ')

/-- The entries on lines of their own between `before` and `after`; no lines without entries. -/
def enclosed (depth : Nat) (before after : String) (entries : List String) : String :=
  if entries.isEmpty then before ++ after
  else
    let lines := entries.map (indentation (depth + 1) ++ ·)
    before ++ "\n" ++ ",\n".intercalate lines ++ "\n" ++ indentation depth ++ after

mutual

def write (depth : Nat) : Json → String
  | null => "null"
  | integer n => toString n
  | real x => (Decimal.shortest? x).getD "null"
  | text s => quoted s
  | list items => enclosed depth "[" "]" (writeItems (depth + 1) items)
  | record fields => enclosed depth "\x7b" "\x7d" (writeFields (depth + 1) fields)

def writeItems (depth : Nat) : List Json → List String
  | [] => []
  | item :: rest => write depth item :: writeItems depth rest

def writeFields (depth : Nat) : List (String × Json) → List String
  | [] => []
  | (name, value) :: rest => (quoted name ++ ": " ++ write depth value) :: writeFields depth rest

end

def pretty (value : Json) : String :=
  value.write 0 ++ "\n"

end Json

end CityCrew.Report
