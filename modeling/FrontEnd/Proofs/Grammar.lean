import FrontEnd.Expr.Parser

/-!
The grammar of the property language, over the tokens of a text.

    expr  := OPERATION expr{arity} | chain
    chain := atom | chain '.' IDENT
    atom  := INT | STRING | BOOL | '(' expr ')' | '[' expr* ']' | 'Self' | 'Env' | 'EmptyEnv'

A derivation counts how many expressions are nested in one another. Tokens are looked at for what
they are and what they say, never for where they stand.
-/
namespace FrontEnd.Expr

/-- The words that are an expression by themselves. -/
def constants : List (String × Expr) := [("Self", .self), ("Env", .env), ("EmptyEnv", .emptyEnv)]

mutual

/-- The tokens make the expression, and at most `depth` expressions are nested in one another, as
many somewhere. -/
inductive Derives : List Token → Expr → Nat → Prop
  | operation {t ts op es e depth} (hk : t.kind = .ident) (ho : Operation.ofName? t.text = some op)
    (hs : DerivesAll ts es depth) (hn : es.length = op.arity) (hb : op.build? es = some e) :
    Derives (t :: ts) e (depth + 1)
  | chain {ts e depth} (hc : DerivesChain ts e depth) : Derives ts e (depth + 1)

/-- The tokens make the expression as an atom with field accesses behind it; `depth` counts the
expressions inside. -/
inductive DerivesChain : List Token → Expr → Nat → Prop
  | int {t n} (hk : t.kind = .int)
    (hn : (withoutUnderscores t.text).toInt? = some (Int64.toInt n)) :
    DerivesChain [t] (.literal (.int n)) 0
  | string {t} (hk : t.kind = .string) :
    DerivesChain [t] (.literal (.text (String.ofList (unescape t.text.toList)))) 0
  | bool {t} (hk : t.kind = .bool) : DerivesChain [t] (.ofBool (t.text == "true")) 0
  | constant {t e} (hk : t.kind = .ident) (he : (t.text, e) ∈ constants) : DerivesChain [t] e 0
  | parens {l ts r e depth} (hl : l.kind = .lParen) (he : Derives ts e depth)
    (hr : r.kind = .rParen) : DerivesChain (l :: (ts ++ [r])) e depth
  | array {l ts r es depth} (hl : l.kind = .lBracket) (hs : DerivesAll ts es depth)
    (hr : r.kind = .rBracket) : DerivesChain (l :: (ts ++ [r])) (.array es) depth
  | field {ts d u e depth} (hc : DerivesChain ts e depth) (hd : d.kind = .dot)
    (hu : u.kind = .ident) : DerivesChain (ts ++ [d, u]) (.field e u.text) depth

inductive DerivesAll : List Token → List Expr → Nat → Prop
  | nil : DerivesAll [] [] 0
  | cons {ts us e es depth depth'} (he : Derives ts e depth) (hs : DerivesAll us es depth') :
    DerivesAll (ts ++ us) (e :: es) (max depth depth')

end

/-- The first token, if there is one, does not go on with an expression that stands before it. -/
def NoDot (ts : List Token) : Prop := ∀ t ∈ ts.head?, t.kind ≠ .dot

theorem noDot_nil : NoDot [] := by simp [NoDot]

theorem noDot_cons {t : Token} {ts : List Token} : NoDot (t :: ts) ↔ t.kind ≠ .dot := by
  simp [NoDot]

/-- A token with which an expression can begin. -/
def Begins (t : Token) : Prop := t.kind ≠ .dot ∧ t.kind ≠ .rBracket

theorem DerivesChain.begins {ts : List Token} {e : Expr} {depth : Nat}
    (hc : DerivesChain ts e depth) : ∃ t us, ts = t :: us ∧ Begins t := by
  match hc with
  | .int hk _ | .string hk | .bool hk | .constant hk _ =>
    exact ⟨_, [], rfl, by simp [Begins, hk]⟩
  | .parens hl _ _ | .array hl _ _ => exact ⟨_, _, rfl, by simp [Begins, hl]⟩
  | .field hc _ _ =>
    obtain ⟨t, us, rfl, ht⟩ := hc.begins
    exact ⟨t, _, rfl, ht⟩

theorem Derives.begins {ts : List Token} {e : Expr} {depth : Nat} (h : Derives ts e depth) :
    ∃ t us, ts = t :: us ∧ Begins t := by
  cases h with
  | operation hk => exact ⟨_, _, rfl, by simp [Begins, hk]⟩
  | chain hc => exact hc.begins

theorem DerivesAll.noDot {ts rest : List Token} {es : List Expr} {depth : Nat}
    (h : DerivesAll ts es depth) (hr : NoDot rest) : NoDot (ts ++ rest) := by
  cases h with
  | nil => exact hr
  | cons he _ =>
    obtain ⟨t, us, rfl, ht⟩ := he.begins
    exact noDot_cons.mpr ht.1

end FrontEnd.Expr
