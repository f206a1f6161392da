import FrontEnd.Proofs.Grammar
import FrontEnd.Proofs.TokensLeft

namespace FrontEnd.Expr

section

variable {α β : Type} {limit limit' : Nat}

/-- The step reads `a` and leaves the tokens `rest`. -/
def Reads (r : Except ParseError (Parsed α limit)) (a : α) (rest : List Token) : Prop :=
  ∃ h, r = .ok ⟨a, rest, h⟩

def TooDeep (r : Except ParseError (Parsed α limit)) : Prop :=
  ∃ position, r = .error ⟨.tooDeep, position⟩

theorem reads_ok {a b : α} {ts rest : List Token} {h : ts.length < limit} :
    Reads (.ok ⟨a, ts, h⟩ : Except ParseError (Parsed α limit)) b rest ↔ a = b ∧ ts = rest := by
  constructor
  · rintro ⟨_, heq⟩
    simpa using heq
  · rintro ⟨ha, ht⟩
    subst ha ht
    exact ⟨h, rfl⟩

theorem not_reads_error {fault : ParseError} {a : α} {rest : List Token} :
    ¬ Reads (.error fault : Except ParseError (Parsed α limit)) a rest := by
  rintro ⟨_, heq⟩
  cases heq

theorem Reads.unique {r : Except ParseError (Parsed α limit)} {a b : α} {rest rest' : List Token}
    (h : Reads r a rest) (h' : Reads r b rest') : a = b ∧ rest = rest' := by
  obtain ⟨hlimit, rfl⟩ := h
  exact reads_ok.mp h'

theorem Reads.not_tooDeep {r : Except ParseError (Parsed α limit)} {a : α} {rest : List Token}
    (h : Reads r a rest) : ¬ TooDeep r := by
  obtain ⟨_, rfl⟩ := h
  rintro ⟨_, heq⟩
  cases heq

theorem reads_bind {x : Except ParseError (Parsed α limit)}
    {f : Parsed α limit → Except ParseError (Parsed β limit')} {b : β} {rest : List Token} :
    Reads (x >>= f) b rest ↔
      ∃ a mid h, x = .ok ⟨a, mid, h⟩ ∧ Reads (f ⟨a, mid, h⟩) b rest := by
  cases x with
  | error fault =>
    constructor
    · intro hr
      exact absurd hr not_reads_error
    · rintro ⟨_, _, _, heq, _⟩
      cases heq
  | ok p =>
    constructor
    · intro hr
      exact ⟨p.value, p.rest, p.within, rfl, hr⟩
    · rintro ⟨_, _, _, heq, hr⟩
      cases heq
      exact hr

theorem reads_map {x : Except ParseError (Parsed α limit)} {g : α → β}
    {within : ∀ p : Parsed α limit, p.rest.length < limit'} {b : β} {rest : List Token} :
    Reads (x >>= fun p => .ok ⟨g p.value, p.rest, within p⟩) b rest ↔
      ∃ a, Reads x a rest ∧ g a = b := by
  rw [reads_bind]
  constructor
  · rintro ⟨a, mid, h, heq, hr⟩
    obtain ⟨ha, rfl⟩ := reads_ok.mp hr
    exact ⟨a, ⟨h, heq⟩, ha⟩
  · rintro ⟨a, ⟨h, heq⟩, ha⟩
    exact ⟨a, rest, h, heq, reads_ok.mpr ⟨ha, rfl⟩⟩

theorem reads_cons {x : Except ParseError (Parsed Expr limit)}
    {f : (ts : List Token) → Except ParseError (Parsed (List Expr) (ts.length + 1))}
    {within : ∀ (p : Parsed Expr limit) (ps : Parsed (List Expr) (p.rest.length + 1)),
      ps.rest.length < limit'} {es : List Expr} {rest : List Token} :
    Reads (x >>= fun p => f p.rest >>= fun ps =>
        .ok ⟨p.value :: ps.value, ps.rest, within p ps⟩) es rest ↔
      ∃ e mid es', Reads x e mid ∧ Reads (f mid) es' rest ∧ e :: es' = es := by
  rw [reads_bind]
  constructor
  · rintro ⟨e, mid, h, heq, hr⟩
    obtain ⟨es', hes, hcons⟩ := reads_map.mp hr
    exact ⟨e, mid, es', ⟨h, heq⟩, hes, hcons⟩
  · rintro ⟨e, mid, es', ⟨h, heq⟩, hes, hcons⟩
    exact ⟨e, mid, h, heq, reads_map.mpr ⟨es', hes, hcons⟩⟩

theorem TooDeep.bind {x : Except ParseError (Parsed α limit)} (h : TooDeep x)
    (f : Parsed α limit → Except ParseError (Parsed β limit')) : TooDeep (x >>= f) := by
  obtain ⟨position, rfl⟩ := h
  exact ⟨position, rfl⟩

theorem tooDeep_of_reads {x : Except ParseError (Parsed α limit)}
    {f : Parsed α limit → Except ParseError (Parsed β limit')} {a : α} {mid : List Token}
    (hx : Reads x a mid) (hf : ∀ h, TooDeep (f ⟨a, mid, h⟩)) : TooDeep (x >>= f) := by
  obtain ⟨h, rfl⟩ := hx
  exact hf h

end

theorem int64Value_eq_some_iff {text : String} {n : Int64} :
    int64Value? text = some n ↔ (withoutUnderscores text).toInt? = some n.toInt := by
  unfold int64Value?
  rw [Option.bind_eq_some_iff]
  constructor
  · rintro ⟨k, hk, hn⟩
    split at hn
    · rename_i hrange
      cases hn
      rw [hk, Int64.toInt_ofInt_of_le (by omega) (by omega)]
    · cases hn
  · intro hk
    have hge := n.le_toInt
    have hlt := n.toInt_lt
    refine ⟨n.toInt, hk, ?_⟩
    rw [if_pos (by omega), Int64.ofInt_toInt]

variable {stop : Nat}

theorem reads_fields_of_noDot {e : Expr} {ts : List Token} (h : NoDot ts) :
    Reads (fields stop e ts) e ts := by
  unfold fields
  split
  · exact reads_ok.mpr ⟨rfl, rfl⟩
  · rw [if_neg (noDot_cons.mp h)]
    exact reads_ok.mpr ⟨rfl, rfl⟩
  · rw [if_neg (noDot_cons.mp h)]
    exact reads_ok.mpr ⟨rfl, rfl⟩

theorem reads_fields_dot {e e' : Expr} {d u : Token} {ts rest : List Token} (hd : d.kind = .dot)
    (hu : u.kind = .ident) :
    Reads (fields stop e (d :: u :: ts)) e' rest ↔
      Reads (fields stop (.field e u.text) ts) e' rest := by
  rw [fields, if_pos hd, if_pos hu]
  exact reads_map.trans exists_eq_right

theorem reads_expression {room : Nat} {ts rest : List Token} {e : Expr} :
    Reads (expression stop (room + 1) ts) e rest ↔
      ∃ head mid, Reads (primary stop (expression stop room) ts) head mid ∧
        Reads (fields stop head mid) e rest := by
  rw [expression, reads_bind]
  constructor
  · rintro ⟨head, mid, h, hp, hr⟩
    obtain ⟨_, hf, rfl⟩ := (reads_map (g := id)).mp hr
    exact ⟨head, mid, ⟨h, hp⟩, hf⟩
  · rintro ⟨head, mid, ⟨h, hp⟩, hf⟩
    exact ⟨head, mid, h, hp, (reads_map (g := id)).mpr ⟨e, hf, rfl⟩⟩

theorem TooDeep.expression {room : Nat} {ts : List Token}
    (h : TooDeep (primary stop (expression stop room) ts)) :
    TooDeep (expression stop (room + 1) ts) := by
  rw [Expr.expression]
  exact h.bind _

variable {item : Step Expr}

theorem reads_operands_zero {ts rest : List Token} {es : List Expr} :
    Reads (operands item 0 ts) es rest ↔ es = [] ∧ ts = rest := by
  rw [operands, reads_ok, eq_comm]

theorem reads_operands_succ {n : Nat} {ts rest : List Token} {es : List Expr} :
    Reads (operands item (n + 1) ts) es rest ↔
      ∃ e mid es', Reads (item ts) e mid ∧ Reads (operands item n mid) es' rest ∧
        e :: es' = es := by
  rw [operands]
  exact reads_cons

theorem reads_elements_nil {rest : List Token} {es : List Expr} :
    Reads (elements item []) es rest ↔ es = [] ∧ rest = [] := by
  rw [elements, reads_ok, eq_comm, eq_comm (a := rest)]

theorem reads_elements_closed {t : Token} {ts rest : List Token} {es : List Expr}
    (ht : t.kind = .rBracket) :
    Reads (elements item (t :: ts)) es rest ↔ es = [] ∧ rest = t :: ts := by
  rw [elements, if_pos ht, reads_ok, eq_comm, eq_comm (a := rest)]

theorem reads_elements_cons {t : Token} {ts rest : List Token} {es : List Expr}
    (ht : t.kind ≠ .rBracket) :
    Reads (elements item (t :: ts)) es rest ↔
      ∃ e mid es', Reads (item (t :: ts)) e mid ∧ Reads (elements item mid) es' rest ∧
        e :: es' = es := by
  rw [elements, if_neg ht]
  exact reads_cons

theorem reads_closing {kind : TokenKind} {fault : ParseFault} {α : Type} {limit : Nat} {a b : α}
    {ts rest : List Token} {h : ts.length < limit} :
    Reads (closing stop kind fault (⟨a, ts, h⟩ : Parsed α limit)) b rest ↔
      ∃ t, t.kind = kind ∧ ts = t :: rest ∧ a = b := by
  cases ts with
  | nil =>
    constructor
    · intro hr
      exact absurd hr not_reads_error
    · rintro ⟨t, _, heq, _⟩
      cases heq
  | cons t ts =>
    rw [closing]
    split
    · rename_i hk
      rw [reads_ok]
      constructor
      · rintro ⟨ha, hts⟩
        exact ⟨t, hk, by rw [hts], ha⟩
      · rintro ⟨u, _, heq, ha⟩
        cases heq
        exact ⟨ha, rfl⟩
    · rename_i hk
      constructor
      · intro hr
        exact absurd hr not_reads_error
      · rintro ⟨u, hu, heq, _⟩
        cases heq
        exact absurd hu hk

theorem reads_parens {t : Token} {ts rest : List Token} {e : Expr} (ht : t.kind = .lParen) :
    Reads (primary stop item (t :: ts)) e rest ↔
      ∃ r, r.kind = .rParen ∧ Reads (item ts) e (r :: rest) := by
  simp only [primary, ht, reads_bind, reads_closing]
  constructor
  · rintro ⟨e', mid, h, he, r, hr, hmid, heq⟩
    subst hmid heq
    exact ⟨r, hr, h, he⟩
  · rintro ⟨r, hr, h, he⟩
    exact ⟨e, r :: rest, h, he, r, hr, rfl, rfl⟩

theorem reads_array {t : Token} {ts rest : List Token} {e : Expr} (ht : t.kind = .lBracket) :
    Reads (primary stop item (t :: ts)) e rest ↔
      ∃ r es, r.kind = .rBracket ∧ Reads (elements item ts) es (r :: rest) ∧ .array es = e := by
  simp only [primary, ht, reads_bind, reads_closing]
  constructor
  · rintro ⟨es, mid, h, he, r, hr, hmid, heq⟩
    subst hmid
    exact ⟨r, es, hr, ⟨h, he⟩, heq⟩
  · rintro ⟨r, es, hr, ⟨h, he⟩, heq⟩
    exact ⟨es, r :: rest, h, he, r, hr, rfl, heq⟩

theorem reads_constant {word : String} {position : Nat} {ts : List Token} {e : Expr}
    (h : (word, e) ∈ constants) : Reads (named item word position ts) e ts := by
  simp only [constants, List.mem_cons, Prod.mk.injEq, List.not_mem_nil, or_false] at h
  rcases h with ⟨rfl, rfl⟩ | ⟨rfl, rfl⟩ | ⟨rfl, rfl⟩ <;> exact reads_ok.mpr ⟨rfl, rfl⟩

theorem named_operation {word : String} {op : Operation} (ho : Operation.ofName? word = some op)
    (position : Nat) (ts : List Token) :
    named item word position ts = (do
      let es ← operands item op.arity ts
      match op.build? es.value with
      | none => .error ⟨.invalidOperands word, position⟩
      | some e => .ok ⟨e, es.rest, es.within⟩) := by
  unfold named
  split
  · cases ho
  · cases ho
  · cases ho
  · generalize Operation.ofName? word = found at ho
    subst ho
    rfl

theorem reads_operation {word : String} {op : Operation} (ho : Operation.ofName? word = some op)
    {position : Nat} {ts rest : List Token} {e : Expr} :
    Reads (named item word position ts) e rest ↔
      ∃ es, Reads (operands item op.arity ts) es rest ∧ op.build? es = some e := by
  rw [named_operation ho, reads_bind]
  constructor
  · rintro ⟨es, mid, h, hes, hr⟩
    dsimp only at hr
    split at hr
    · exact absurd hr not_reads_error
    · rename_i e' hb
      obtain ⟨rfl, rfl⟩ := reads_ok.mp hr
      exact ⟨es, ⟨h, hes⟩, hb⟩
  · rintro ⟨es, ⟨h, hes⟩, hb⟩
    refine ⟨es, rest, h, hes, ?_⟩
    dsimp only
    rw [hb]
    exact reads_ok.mpr ⟨rfl, rfl⟩

theorem constant_or_operation {word : String} {position : Nat} {ts rest : List Token} {e : Expr}
    (hr : Reads (named item word position ts) e rest) :
    (word, e) ∈ constants ∧ ts = rest ∨ ∃ op, Operation.ofName? word = some op := by
  unfold named at hr
  split at hr
  · exact .inl (by simpa [reads_ok, constants, eq_comm] using hr)
  · exact .inl (by simpa [reads_ok, constants, eq_comm] using hr)
  · exact .inl (by simpa [reads_ok, constants, eq_comm] using hr)
  · split at hr
    · exact absurd hr not_reads_error
    · rename_i op ho
      exact .inr ⟨op, ho⟩

/-- What the step reads is derived, with no more nesting than `room`, and no field access is left
behind it. -/
def Sound (item : Step Expr) (room : Nat) : Prop :=
  ∀ ts e rest, Reads (item ts) e rest →
    ∃ us depth, ts = us ++ rest ∧ Derives us e depth ∧ depth ≤ room ∧ NoDot rest

theorem fields_sound {us ts rest : List Token} {e e' : Expr} {depth : Nat}
    (hc : DerivesChain us e depth) (hr : Reads (fields stop e ts) e' rest) :
    ∃ vs, ts = vs ++ rest ∧ DerivesChain (us ++ vs) e' depth ∧ NoDot rest := by
  match ts with
  | [] =>
    obtain ⟨rfl, rfl⟩ := (reads_fields_of_noDot noDot_nil).unique hr
    exact ⟨[], rfl, by simpa using hc, noDot_nil⟩
  | d :: ts =>
    by_cases hd : d.kind = .dot
    · match ts with
      | [] =>
        rw [fields, if_pos hd] at hr
        exact absurd hr not_reads_error
      | u :: ts =>
        by_cases hu : u.kind = .ident
        · rw [reads_fields_dot hd hu] at hr
          obtain ⟨vs, rfl, hvs, hrest⟩ := fields_sound (hc.field hd hu) hr
          exact ⟨d :: u :: vs, rfl, by simpa using hvs, hrest⟩
        · rw [fields, if_pos hd, if_neg hu] at hr
          exact absurd hr not_reads_error
    · have hts : NoDot (d :: ts) := noDot_cons.mpr hd
      obtain ⟨rfl, rfl⟩ := (reads_fields_of_noDot hts).unique hr
      exact ⟨[], rfl, by simpa using hc, hts⟩

theorem operands_sound {room : Nat} (hi : Sound item room) {n : Nat} {ts rest : List Token}
    {es : List Expr} (hr : Reads (operands item n ts) es rest) :
    ∃ us depth, ts = us ++ rest ∧ DerivesAll us es depth ∧ depth ≤ room ∧ es.length = n ∧
      (0 < n → NoDot rest) := by
  induction n generalizing ts es with
  | zero =>
    obtain ⟨rfl, rfl⟩ := reads_operands_zero.mp hr
    exact ⟨[], 0, rfl, .nil, Nat.zero_le _, rfl, by simp⟩
  | succ n ih =>
    obtain ⟨e, mid, es', he, hes, rfl⟩ := reads_operands_succ.mp hr
    obtain ⟨us, depth, rfl, hus, hd, hmid⟩ := hi _ _ _ he
    obtain ⟨vs, depth', rfl, hvs, hd', hlen, hrest⟩ := ih hes
    refine ⟨us ++ vs, max depth depth', (List.append_assoc ..).symm, .cons hus hvs,
      Nat.max_le.mpr ⟨hd, hd'⟩, congrArg (· + 1) hlen, fun _ => ?_⟩
    cases n with
    | zero =>
      obtain ⟨rfl, hrest⟩ := reads_operands_zero.mp hes
      exact hrest ▸ hmid
    | succ n => exact hrest (Nat.succ_pos n)

theorem elements_sound {room : Nat} (hi : Sound item room) {ts rest : List Token}
    {es : List Expr} (hr : Reads (elements item ts) es rest) :
    ∃ us depth, ts = us ++ rest ∧ DerivesAll us es depth ∧ depth ≤ room := by
  match ts with
  | [] =>
    obtain ⟨rfl, rfl⟩ := reads_elements_nil.mp hr
    exact ⟨[], 0, rfl, .nil, Nat.zero_le _⟩
  | t :: ts =>
    by_cases ht : t.kind = .rBracket
    · obtain ⟨rfl, rfl⟩ := (reads_elements_closed ht).mp hr
      exact ⟨[], 0, rfl, .nil, Nat.zero_le _⟩
    · obtain ⟨e, mid, es', he, hes, rfl⟩ := (reads_elements_cons ht).mp hr
      obtain ⟨us, depth, hus, hder, hd, -⟩ := hi _ _ _ he
      obtain ⟨vs, depth', rfl, hvs, hd'⟩ := elements_sound hi hes
      exact ⟨us ++ vs, max depth depth', by rw [hus, List.append_assoc], .cons hder hvs,
        Nat.max_le.mpr ⟨hd, hd'⟩⟩
termination_by es.length

theorem primary_sound {room : Nat} (hi : Sound item room) {ts rest : List Token} {e : Expr}
    (hr : Reads (primary stop item ts) e rest) :
    ∃ us depth, ts = us ++ rest ∧ depth ≤ room ∧
      (DerivesChain us e depth ∨ Derives us e (depth + 1) ∧ NoDot rest) := by
  cases ts with
  | nil => exact absurd hr not_reads_error
  | cons t ts =>
    -- The first token decides which rule of the grammar is meant.
    cases hk : t.kind with
    | ident =>
      simp only [primary, hk] at hr
      rcases constant_or_operation hr with ⟨hc, rfl⟩ | ⟨op, ho⟩
      · exact ⟨[t], 0, rfl, Nat.zero_le _, .inl (.constant hk hc)⟩
      · obtain ⟨es, hes, hb⟩ := (reads_operation ho).mp hr
        obtain ⟨us, depth, rfl, hus, hd, hlen, hrest⟩ := operands_sound hi hes
        have hpos : 0 < op.arity := by cases op <;> decide
        exact ⟨t :: us, depth, rfl, hd, .inr ⟨.operation hk ho hus hlen hb, hrest hpos⟩⟩
    | int =>
      simp only [primary, hk] at hr
      split at hr
      · rename_i n hn
        obtain ⟨rfl, rfl⟩ := reads_ok.mp hr
        exact ⟨[t], 0, rfl, Nat.zero_le _, .inl (.int hk (int64Value_eq_some_iff.mp hn))⟩
      · exact absurd hr not_reads_error
    | string =>
      simp only [primary, hk] at hr
      obtain ⟨rfl, rfl⟩ := reads_ok.mp hr
      exact ⟨[t], 0, rfl, Nat.zero_le _, .inl (.string hk)⟩
    | bool =>
      simp only [primary, hk] at hr
      obtain ⟨rfl, rfl⟩ := reads_ok.mp hr
      exact ⟨[t], 0, rfl, Nat.zero_le _, .inl (.bool hk)⟩
    | lParen =>
      obtain ⟨r, hrk, he⟩ := (reads_parens hk).mp hr
      obtain ⟨us, depth, rfl, hus, hd, -⟩ := hi _ _ _ he
      exact ⟨t :: (us ++ [r]), depth, by simp, hd, .inl (.parens hk hus hrk)⟩
    | lBracket =>
      obtain ⟨r, es, hrk, hes, rfl⟩ := (reads_array hk).mp hr
      obtain ⟨us, depth, rfl, hus, hd⟩ := elements_sound hi hes
      exact ⟨t :: (us ++ [r]), depth, by simp, hd, .inl (.array hk hus hrk)⟩
    | rParen | rBracket | dot =>
      simp only [primary, hk] at hr
      exact absurd hr not_reads_error

theorem expression_sound (room : Nat) : Sound (expression stop room) room := by
  induction room with
  | zero =>
    intro ts e rest hr
    exact absurd hr not_reads_error
  | succ room ih =>
    intro ts e rest hr
    obtain ⟨head, mid, hp, hf⟩ := reads_expression.mp hr
    obtain ⟨us, depth, rfl, hd, hc | ⟨hop, hmid⟩⟩ := primary_sound ih hp
    · obtain ⟨vs, rfl, hvs, hrest⟩ := fields_sound hc hf
      exact ⟨us ++ vs, depth + 1, (List.append_assoc ..).symm, .chain hvs, Nat.succ_le_succ hd,
        hrest⟩
    · obtain ⟨rfl, rfl⟩ := (reads_fields_of_noDot hmid).unique hf
      exact ⟨us, depth + 1, rfl, hop, Nat.succ_le_succ hd, hmid⟩

/-- What needs `depth` levels is read if there is room for them, and else found too deep. -/
structure ReadBy (depth room : Nat) {α : Type} {limit : Nat}
    (r : Except ParseError (Parsed α limit)) (a : α) (rest : List Token) : Prop where
  reads : depth ≤ room → Reads r a rest
  tooDeep : room < depth → TooDeep r

namespace ReadBy

variable {α β : Type} {limit limit' depth depth' room : Nat} {a : α} {b : β}
  {ts mid rest : List Token} {x : Except ParseError (Parsed α limit)}
  {f : Parsed α limit → Except ParseError (Parsed β limit')}

theorem of_reads (h : Reads x a rest) : ReadBy 0 room x a rest :=
  ⟨fun _ => h, fun hlt => absurd hlt (Nat.not_lt_zero room)⟩

theorem bind (hx : ReadBy depth room x a mid)
    (hf : ∀ h, ReadBy depth' room (f ⟨a, mid, h⟩) b rest) :
    ReadBy (max depth depth') room (x >>= f) b rest := by
  constructor
  · intro hle
    obtain ⟨h, heq⟩ := hx.reads (by omega)
    exact reads_bind.mpr ⟨a, mid, h, heq, (hf h).reads (by omega)⟩
  · intro hlt
    by_cases hd : room < depth
    · exact (hx.tooDeep hd).bind f
    · exact tooDeep_of_reads (hx.reads (by omega)) fun h => (hf h).tooDeep (by omega)

theorem followed (hx : ReadBy depth room x a mid) (hf : ∀ h, Reads (f ⟨a, mid, h⟩) b rest) :
    ReadBy depth room (x >>= f) b rest := by
  have hall := hx.bind fun h => of_reads (hf h)
  rwa [Nat.max_zero] at hall

theorem expression {head e : Expr}
    (hp : ∀ k, ReadBy depth k (primary stop (expression stop k) ts) head mid)
    (hf : Reads (fields stop head mid) e rest) :
    ReadBy (depth + 1) room (Expr.expression stop room ts) e rest := by
  cases room with
  | zero => exact ⟨fun hle => absurd hle (Nat.not_succ_le_zero depth), fun _ => ⟨_, rfl⟩⟩
  | succ room =>
    constructor
    · intro hle
      exact reads_expression.mpr ⟨head, mid, (hp room).reads (Nat.le_of_succ_le_succ hle), hf⟩
    · intro hlt
      exact ((hp room).tooDeep (Nat.lt_of_succ_lt_succ hlt)).expression

end ReadBy

mutual

/-- Every derived expression is read where nothing goes on with it. -/
theorem Derives.readBy {ts rest : List Token} {e : Expr} {depth : Nat} (h : Derives ts e depth)
    (hr : NoDot rest) (room : Nat) :
    ReadBy depth room (expression stop room (ts ++ rest)) e rest := by
  match h with
  | .operation hk ho hs hn hb =>
    refine .expression (fun k => ?_) (reads_fields_of_noDot hr)
    have hes := hn ▸ hs.operands_readBy hr k
    simp only [List.cons_append, primary, hk, named_operation ho]
    refine hes.followed fun _ => ?_
    dsimp only
    rw [hb]
    exact reads_ok.mpr ⟨rfl, rfl⟩
  | .chain hc => exact hc.readBy (reads_fields_of_noDot hr) room

theorem DerivesChain.readBy {ts rest rest' : List Token} {e e' : Expr} {depth : Nat}
    (h : DerivesChain ts e depth) (hf : Reads (fields stop e rest) e' rest') (room : Nat) :
    ReadBy (depth + 1) room (expression stop room (ts ++ rest)) e' rest' := by
  -- Behind an atom the field accesses are read; a field access is one of those behind its chain.
  match h with
  | .int hk hn =>
    refine .expression (fun k => .of_reads ?_) hf
    simp only [List.cons_append, primary, hk, int64Value_eq_some_iff.mpr hn]
    exact reads_ok.mpr ⟨rfl, rfl⟩
  | .string hk =>
    refine .expression (fun k => .of_reads ?_) hf
    simp only [List.cons_append, primary, hk]
    exact reads_ok.mpr ⟨rfl, rfl⟩
  | .bool hk =>
    refine .expression (fun k => .of_reads ?_) hf
    simp only [List.cons_append, primary, hk]
    exact reads_ok.mpr ⟨rfl, rfl⟩
  | .constant hk hc =>
    refine .expression (fun k => .of_reads ?_) hf
    simp only [List.cons_append, primary, hk]
    exact reads_constant hc
  | .parens (r := r) hl he hr =>
    refine .expression (fun k => ?_) hf
    have hr' : NoDot (r :: rest) := noDot_cons.mpr (by simp [hr])
    rw [List.cons_append, List.append_assoc, List.singleton_append]
    simp only [primary, hl]
    refine (he.readBy hr' k).followed fun _ => ?_
    exact reads_closing.mpr ⟨r, hr, rfl, rfl⟩
  | .array (r := r) hl hs hr =>
    refine .expression (fun k => ?_) hf
    rw [List.cons_append, List.append_assoc, List.singleton_append]
    simp only [primary, hl]
    refine (hs.elements_readBy hr k).followed fun _ => ?_
    exact reads_closing.mpr ⟨r, hr, rfl, rfl⟩
  | .field hc hd hu =>
    rw [List.append_assoc]
    exact hc.readBy ((reads_fields_dot hd hu).mpr hf) room

theorem DerivesAll.operands_readBy {ts rest : List Token} {es : List Expr} {depth : Nat}
    (h : DerivesAll ts es depth) (hr : NoDot rest) (room : Nat) :
    ReadBy depth room (operands (expression stop room) es.length (ts ++ rest)) es rest := by
  match h with
  | .nil => exact .of_reads (reads_ok.mpr ⟨rfl, rfl⟩)
  | .cons he hs =>
    rw [List.append_assoc, List.length_cons, operands]
    refine (he.readBy (hs.noDot hr) room).bind fun _ => ?_
    exact (hs.operands_readBy hr room).followed fun _ => reads_ok.mpr ⟨rfl, rfl⟩

theorem DerivesAll.elements_readBy {ts rest : List Token} {es : List Expr} {depth : Nat}
    {r : Token} (h : DerivesAll ts es depth) (hr : r.kind = .rBracket) (room : Nat) :
    ReadBy depth room (elements (expression stop room) (ts ++ r :: rest)) es (r :: rest) := by
  -- Derived expressions are read up to the bracket behind them, because none begins with one.
  match h with
  | .nil => exact .of_reads ((reads_elements_closed hr).mpr ⟨rfl, rfl⟩)
  | .cons he hs =>
    have hr' : NoDot (r :: rest) := noDot_cons.mpr (by simp [hr])
    -- An expression begins with no closing bracket, so the list goes on.
    obtain ⟨t, us, hts, -, ht⟩ := he.begins
    have hread := he.readBy (hs.noDot hr') room
    rw [List.append_assoc]
    rw [hts] at hread ⊢
    rw [List.cons_append, elements, if_neg ht]
    refine hread.bind fun _ => ?_
    exact (hs.elements_readBy hr room).followed fun _ => reads_ok.mpr ⟨rfl, rfl⟩

end

theorem Derives.readBy_alone {ts : List Token} {e : Expr} {depth : Nat} (h : Derives ts e depth)
    (stop room : Nat) : ReadBy depth room (expression stop room ts) e [] := by
  have hall : ReadBy depth room (expression stop room (ts ++ [])) e [] := h.readBy noDot_nil room
  rwa [List.append_nil] at hall

theorem Derives.depth_le {ts : List Token} {e e' : Expr} {depth depth' : Nat}
    (h : Derives ts e depth) (h' : Derives ts e' depth') : depth ≤ depth' := by
  refine Nat.le_of_not_lt fun hlt => ?_
  have hread := (h'.readBy_alone 0 depth').reads (Nat.le_refl _)
  exact hread.not_tooDeep ((h.readBy_alone 0 depth').tooDeep hlt)

/-- Tokens make one expression at most, with one depth: two derivations are read alike where there
is room for both. -/
theorem Derives.unique {ts : List Token} {e e' : Expr} {depth depth' : Nat}
    (h : Derives ts e depth) (h' : Derives ts e' depth') : e = e' ∧ depth = depth' := by
  have hread := (h.readBy_alone 0 (max depth depth')).reads (Nat.le_max_left ..)
  have hread' := (h'.readBy_alone 0 (max depth depth')).reads (Nat.le_max_right ..)
  exact ⟨(hread.unique hread').1, Nat.le_antisymm (h.depth_le h') (h'.depth_le h)⟩

theorem ofTokens_eq_ok_iff {ts : List Token} {e : Expr} :
    ofTokens stop ts = .ok e ↔ Reads (expression stop maxNesting ts) e [] := by
  unfold ofTokens
  cases hx : expression stop maxNesting ts with
  | error fault =>
    constructor
    · intro h
      cases h
    · intro h
      exact absurd h not_reads_error
  | ok p =>
    obtain ⟨a, rest, within⟩ := p
    rw [reads_ok]
    cases rest with
    | nil => simp [bind, Except.bind]
    | cons t ts => simp [bind, Except.bind]

theorem ofTokens_derives {ts : List Token} {e : Expr} :
    ofTokens stop ts = .ok e ↔ ∃ depth ≤ maxNesting, Derives ts e depth := by
  rw [ofTokens_eq_ok_iff]
  constructor
  · intro h
    obtain ⟨us, depth, rfl, hus, hd, -⟩ := expression_sound maxNesting _ _ _ h
    rw [List.append_nil]
    exact ⟨depth, hd, hus⟩
  · rintro ⟨depth, hd, h⟩
    exact (h.readBy_alone stop maxNesting).reads hd

theorem ofTokens_tooDeep {ts : List Token} {e : Expr} {depth : Nat} (h : Derives ts e depth)
    (hd : maxNesting < depth) : ∃ position, ofTokens stop ts = .error ⟨.tooDeep, position⟩ := by
  obtain ⟨position, heq⟩ := (h.readBy_alone stop maxNesting).tooDeep hd
  refine ⟨position, ?_⟩
  unfold ofTokens
  rw [heq]
  rfl

theorem parse_eq_ok_iff {text : String} {e : Expr} :
    parse text = .ok e ↔ (Scan.ofText 0 text).problems = [] ∧
      ofTokens (Scan.ofText 0 text).stop (Scan.ofText 0 text).tokens = .ok e := by
  unfold parse
  dsimp only
  cases (Scan.ofText 0 text).problems with
  | cons d ds => simp
  | nil =>
    dsimp only
    rw [Scan.read_stream]
    cases ofTokens (Scan.ofText 0 text).stop (Scan.ofText 0 text).tokens <;> simp

end FrontEnd.Expr
