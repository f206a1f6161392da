import FrontEnd.Expr.Descent

namespace FrontEnd.Expr

def Stream.places (s : Stream) : List Nat := s.tokens.toList.map (·.span.start) ++ [s.stop]

theorem Stream.place_mem {s : Stream} {t : Token} (h : t ∈ s.tokens) : s.place t ∈ s.places := by
  apply List.mem_append_left
  exact List.mem_map_of_mem h.val

theorem Stream.stop_mem (s : Stream) : s.place none ∈ s.places := by simp [place, places]

theorem Stream.place_ahead (s : Stream) (i : Nat) : s.place s.tokens[i]? ∈ s.places := by
  cases ht : s.tokens[i]? with
  | none => exact s.stop_mem
  | some t => exact place_mem (Array.mem_of_getElem? ht)

namespace Event

/-- The calls that have not returned yet. -/
def active (past : List Event) : Nat := past.count .called - past.count .returned

/-- Calls and returns, the last event first. None returns before it is called, at no time are more
than `room` of them active, and in the end all have returned. -/
structure Nested (room : Nat) (events : List Event) : Prop where
  called_first : ∀ past, past <:+ events → past.count .returned ≤ past.count .called
  active_le : ∀ past, past <:+ events → active past ≤ room
  closed : active events = 0

namespace Nested

variable {room : Nat} {events later : List Event}

theorem count_eq (h : Nested room events) : events.count .returned = events.count .called := by
  apply Nat.le_antisymm (h.called_first events List.suffix_rfl)
  exact Nat.le_of_sub_eq_zero h.closed

theorem nil (room : Nat) : Nested room [] := by
  refine ⟨fun past hpast => ?_, fun past hpast => ?_, rfl⟩
  all_goals
    rw [List.suffix_nil.mp hpast]
    exact Nat.zero_le _

theorem active_append (h : Nested room events) (past : List Event) :
    active (past ++ events) = active past := by
  have hcount := h.count_eq
  rw [active, List.count_append, List.count_append, hcount, active]
  omega

theorem append (hlater : Nested room later) (h : Nested room events) :
    Nested room (later ++ events) := by
  -- A past reaches into the later events, with all the earlier ones in it, or ends before them.
  have hcases (past : List Event) (hpast : past <:+ later ++ events) :
      (∃ mid, mid <:+ later ∧ past = mid ++ events) ∨ past <:+ events := by
    obtain ⟨rest, heq⟩ := hpast
    rcases List.append_eq_append_iff.mp heq with ⟨mid, hl, hp⟩ | ⟨mid, -, he⟩
    · exact .inl ⟨mid, ⟨rest, hl.symm⟩, hp⟩
    · exact .inr ⟨mid, he.symm⟩
  constructor
  case called_first =>
    intro past hpast
    rcases hcases past hpast with ⟨mid, hmid, rfl⟩ | hpast
    · rw [List.count_append, List.count_append, h.count_eq]
      exact Nat.add_le_add_right (hlater.called_first mid hmid) _
    · exact h.called_first past hpast
  case active_le =>
    intro past hpast
    rcases hcases past hpast with ⟨mid, hmid, rfl⟩ | hpast
    · rw [h.active_append]
      exact hlater.active_le mid hmid
    · exact h.active_le past hpast
  case closed => rw [h.active_append, hlater.closed]

theorem around (h : Nested room events) : Nested (room + 1) (.returned :: (events ++ [.called])) := by
  -- A past is all of it, nothing, or what happened inside up to some time, behind the call.
  have hcases (past : List Event) (hpast : past <:+ .returned :: (events ++ [.called])) :
      past = .returned :: (events ++ [.called]) ∨ past = [] ∨
        ∃ inner, inner <:+ events ∧ past = inner ++ [.called] := by
    rcases List.suffix_cons_iff.mp hpast with rfl | hpast
    · exact .inl rfl
    · rcases List.suffix_concat_iff.mp hpast with rfl | ⟨inner, rfl, hinner⟩
      · exact .inr (.inl rfl)
      · exact .inr (.inr ⟨inner, hinner, rfl⟩)
  have hcount := h.count_eq
  constructor
  case called_first =>
    intro past hpast
    rcases hcases past hpast with rfl | rfl | ⟨inner, hinner, rfl⟩
    · simp [hcount]
    · simp
    · have hle := h.called_first inner hinner
      simp
      omega
  case active_le =>
    intro past hpast
    rcases hcases past hpast with rfl | rfl | ⟨inner, hinner, rfl⟩
    · simp [active, hcount]
    · simp [active]
    · have hle : active inner ≤ room := h.active_le inner hinner
      rw [active] at hle ⊢
      simp
      omega
  case closed => simp [active, hcount]

end Nested

end Event

namespace Parser

variable {α β : Type} {s : Stream} {room n least least' : Nat} {c c' c'' : Cursor}

/-- The step leaves things in order: from `c` it came to `r` at `c'`, passing so many tokens at
least if it read something. -/
structure Orderly (s : Stream) (room least : Nat) (c : Cursor) (r : Except ParseError α)
    (c' : Cursor) : Prop where
  depth : c'.depth = c.depth
  forward : c.position ≤ c'.position
  inside : c'.position ≤ max c.position s.tokens.size
  passed : ∀ a, r = .ok a → c.position + least ≤ c'.position
  placed : ∀ e, r = .error e → e.position ∈ s.places
  nested : ∃ events, c'.history = events ++ c.history ∧ Event.Nested room events

namespace Orderly

theorem ok_refl (a : α) (c : Cursor) : Orderly s room 0 c (.ok a) c where
  depth := rfl
  forward := Nat.le_refl _
  inside := Nat.le_max_left ..
  passed _ _ := Nat.le_refl _
  placed _ h := by cases h
  nested := ⟨[], rfl, .nil room⟩

theorem error_refl {e : ParseError} (he : e.position ∈ s.places) (c : Cursor) :
    Orderly s room least c (.error e : Except ParseError α) c where
  depth := rfl
  forward := Nat.le_refl _
  inside := Nat.le_max_left ..
  passed _ h := by cases h
  placed e' h := by
    cases h
    exact he
  nested := ⟨[], rfl, .nil room⟩

theorem advance (a : α) (hc : c.position < s.tokens.size) :
    Orderly s room 1 c (.ok a) c.advance where
  depth := rfl
  forward := Nat.le_succ _
  inside := Nat.le_trans hc (Nat.le_max_right ..)
  passed _ _ := Nat.le_refl _
  placed _ h := by cases h
  nested := ⟨[], rfl, .nil room⟩

theorem trans {a : α} {r : Except ParseError β} (h : Orderly s room least c (.ok a) c')
    (h' : Orderly s room least' c' r c'') : Orderly s room least c r c'' where
  depth := h'.depth.trans h.depth
  forward := Nat.le_trans h.forward h'.forward
  inside := by
    have hfirst := h.inside
    have hsecond := h'.inside
    omega
  passed _ _ := Nat.le_trans (h.passed a rfl) h'.forward
  placed := h'.placed
  nested := by
    obtain ⟨events, hevents, hnested⟩ := h.nested
    obtain ⟨later, hlater, hnested'⟩ := h'.nested
    refine ⟨later ++ events, ?_, hnested'.append hnested⟩
    rw [hlater, hevents, List.append_assoc]

theorem failed {e : ParseError}
    (h : Orderly s room least c (.error e : Except ParseError α) c') :
    Orderly s room least' c (.error e : Except ParseError β) c' where
  depth := h.depth
  forward := h.forward
  inside := h.inside
  passed _ hb := by cases hb
  placed e' he := by
    cases he
    exact h.placed e rfl
  nested := h.nested

theorem weaken {r : Except ParseError α} (h : Orderly s room least c r c') :
    Orderly s room 0 c r c' where
  depth := h.depth
  forward := h.forward
  inside := h.inside
  passed _ _ := h.forward
  placed := h.placed
  nested := h.nested

theorem deeper {r : Except ParseError α} (h : Orderly s room least c.enter r c') :
    Orderly s room least c r c'.leave where
  depth := by
    have hdepth : c'.depth = c.depth + 1 := h.depth
    change c'.depth - 1 = c.depth
    omega
  forward := h.forward
  inside := h.inside
  passed := h.passed
  placed := h.placed
  nested := h.nested

theorem around {r : Except ParseError α} (h : Orderly s room least c.noteCall r c') :
    Orderly s (room + 1) least c r c'.noteReturn where
  depth := h.depth
  forward := h.forward
  inside := h.inside
  passed := h.passed
  placed := h.placed
  nested := by
    obtain ⟨events, hevents, hnested⟩ := h.nested
    refine ⟨.returned :: (events ++ [.called]), ?_, hnested.around⟩
    change .returned :: c'.history = _
    rw [hevents]
    simp [Cursor.noteCall]

end Orderly

/-- The step ends, and leaves things in order. -/
def Goes (s : Stream) (room least : Nat) (m : Parser α) (c : Cursor) : Prop :=
  ∃ r c', outcome m c = some (r, c') ∧ Orderly s room least c r c'

theorem outcome_bind (m : Parser α) (f : α → Parser β) (c : Cursor) :
    outcome (m >>= f) c =
      match outcome m c with
      | none => none
      | some (.ok a, c') => outcome (f a) c'
      | some (.error e, c') => some (.error e, c') := by
  unfold outcome
  rw [ExceptT.run_bind, StateT.run_bind]
  rcases m.run.run c with _ | ⟨_ | _, _⟩ <;> rfl

theorem outcome_pure (a : α) (c : Cursor) : outcome (pure a) c = some (.ok a, c) := rfl

theorem outcome_fail (s : Stream) (t : Option Token) (fault : ParseFault) (c : Cursor) :
    outcome (s.fail t fault : Parser α) c = some (.error ⟨fault, s.place t⟩, c) := rfl

theorem outcome_peek (s : Stream) (c : Cursor) :
    outcome s.peek c = some (.ok s.tokens[c.position]?, c) := rfl

theorem outcome_ahead (s : Stream) (c : Cursor) :
    outcome s.ahead c = some (.ok (s.tokens[c.position]?.map (·.kind)), c) := rfl

theorem outcome_next (s : Stream) (c : Cursor) :
    outcome s.next c =
      some (.ok s.tokens[c.position]?, if s.tokens[c.position]?.isSome then c.advance else c) := by
  rw [Stream.next, outcome_bind, outcome_peek]
  cases s.tokens[c.position]? <;> rfl

namespace Goes

theorem pure (a : α) (c : Cursor) : Goes s room 0 (Pure.pure a) c :=
  ⟨.ok a, c, outcome_pure a c, .ok_refl a c⟩

theorem fail {t : Option Token} (ht : s.place t ∈ s.places) (fault : ParseFault) (c : Cursor) :
    Goes s room least (s.fail t fault : Parser α) c :=
  ⟨.error ⟨fault, s.place t⟩, c, outcome_fail s t fault c, .error_refl ht c⟩

theorem bind {m : Parser α} {f : α → Parser β} (hm : Goes s room least m c)
    (hf : ∀ a c', Orderly s room least c (.ok a) c' → Goes s room 0 (f a) c') :
    Goes s room least (m >>= f) c := by
  obtain ⟨r, c', hr, ho⟩ := hm
  cases r with
  | error e =>
    refine ⟨.error e, c', ?_, ho.failed⟩
    rw [outcome_bind, hr]
  | ok a =>
    obtain ⟨r, c'', hr', ho'⟩ := hf a c' ho
    refine ⟨r, c'', ?_, ho.trans ho'⟩
    rw [outcome_bind, hr]
    exact hr'

theorem weaken {m : Parser α} (h : Goes s room least m c) : Goes s room 0 m c := by
  obtain ⟨r, c', hr, ho⟩ := h
  exact ⟨r, c', hr, ho.weaken⟩

theorem peek {f : Option Token → Parser β}
    (hf : Goes s room least (f s.tokens[c.position]?) c) :
    Goes s room least (s.peek >>= f) c := by
  obtain ⟨r, c', hr, ho⟩ := hf
  refine ⟨r, c', ?_, ho⟩
  rw [outcome_bind, outcome_peek]
  exact hr

theorem ahead {f : Option TokenKind → Parser β}
    (hf : Goes s room least (f (s.tokens[c.position]?.map (·.kind))) c) :
    Goes s room least (s.ahead >>= f) c := by
  obtain ⟨r, c', hr, ho⟩ := hf
  refine ⟨r, c', ?_, ho⟩
  rw [outcome_bind, outcome_ahead]
  exact hr

theorem next {f : Option Token → Parser β}
    (hend : s.tokens[c.position]? = none → Goes s room 1 (f none) c)
    (hsome : ∀ t ∈ s.tokens, Goes s room 0 (f (some t)) c.advance) :
    Goes s room 1 (s.next >>= f) c := by
  cases ht : s.tokens[c.position]? with
  | none =>
    obtain ⟨r, c', hr, ho⟩ := hend ht
    refine ⟨r, c', ?_, ho⟩
    rw [outcome_bind, outcome_next, ht]
    exact hr
  | some t =>
    obtain ⟨hlt, -⟩ := Array.getElem?_eq_some_iff.mp ht
    obtain ⟨r, c', hr, ho⟩ := hsome t (Array.mem_of_getElem? ht)
    refine ⟨r, c', ?_, (Orderly.advance t hlt).trans ho⟩
    rw [outcome_bind, outcome_next, ht]
    exact hr

theorem expect (kind : TokenKind) (fault : ParseFault) (c : Cursor) :
    Goes s room 1 (s.expect kind fault) c := by
  rw [Stream.expect]
  refine next (fun _ => fail s.stop_mem fault c) fun t ht => ?_
  dsimp only
  split
  · exact pure t c.advance
  · exact fail (Stream.place_mem ht) fault c.advance

end Goes

theorem position_lt_of_ahead {kind : TokenKind}
    (h : s.tokens[c.position]?.map (·.kind) = some kind) : c.position < s.tokens.size := by
  obtain ⟨t, ht, -⟩ := Option.map_eq_some_iff.mp h
  exact (Array.getElem?_eq_some_iff.mp ht).1

theorem fields_goes (e : Expr) (c : Cursor) : Goes s room 0 (s.fields e) c := by
  -- Each field access passes two tokens.
  rw [Stream.fields]
  apply Goes.ahead
  split
  · next hdot =>
    have hlt : c.position < s.tokens.size := position_lt_of_ahead hdot
    refine (Goes.next (fun hend => ?_) fun _ _ => ?_).weaken
    · rw [hend] at hdot
      cases hdot
    · refine ((Goes.expect .ident .noFieldName c.advance).bind fun t c' ho => ?_).weaken
      have hpassed : c.position + 1 + 1 ≤ c'.position := ho.passed t rfl
      exact fields_goes (.field e t.text) c'
  · exact .pure e c
termination_by s.tokens.size - c.position

/-- Where `n` more expressions may be let in, a call goes well: it has room for as many calls, and for
one that is turned away. -/
def Admits (s : Stream) (n : Nat) : Prop :=
  ∀ c : Cursor, maxNesting - c.depth = n → Goes s (n + 1) 1 s.expression c

section

variable (hn : Admits s n)
include hn

theorem operands_goes (k : Nat) (c : Cursor) (hc : maxNesting - c.depth = n) :
    Goes s (n + 1) 0 (s.operands k) c := by
  induction k generalizing c with
  | zero =>
    rw [Stream.operands]
    exact .pure [] c
  | succ k ih =>
    rw [Stream.operands]
    refine ((hn c hc).bind fun e c' ho => ?_).weaken
    have hc' : maxNesting - c'.depth = n := by rw [ho.depth, hc]
    exact (ih c' hc').bind fun es c'' _ => .pure (e :: es) c''

theorem elements_goes (c : Cursor) (hc : maxNesting - c.depth = n) :
    Goes s (n + 1) 0 s.elements c := by
  -- The elements come to an end, because each passes a token and none is begun at the end.
  rw [Stream.elements]
  apply Goes.ahead
  split
  · exact .pure [] c
  · exact .pure [] c
  · next hnone _ =>
    have hlt : c.position < s.tokens.size := by
      apply Nat.lt_of_not_le
      intro hle
      exact hnone (by rw [Array.getElem?_eq_none hle, Option.map_none])
    refine ((hn c hc).bind fun e c' ho => ?_).weaken
    have hpassed : c.position + 1 ≤ c'.position := ho.passed e rfl
    have hc' : maxNesting - c'.depth = n := by rw [ho.depth, hc]
    exact (elements_goes c' hc').bind fun es c'' _ => .pure (e :: es) c''
termination_by s.tokens.size - c.position

theorem named_goes {t : Token} (ht : t ∈ s.tokens) (c : Cursor) (hc : maxNesting - c.depth = n) :
    Goes s (n + 1) 0 (s.named t) c := by
  have hplace : s.place t ∈ s.places := Stream.place_mem ht
  rw [Stream.named]
  split
  · exact .pure self c
  · exact .pure env c
  · exact .pure emptyEnv c
  · split
    · exact .fail hplace _ c
    · next op _ =>
      refine (operands_goes hn op.arity c hc).bind fun es c' _ => ?_
      split
      · exact .fail hplace _ c'
      · next e _ => exact .pure e c'

theorem primary_goes (c : Cursor) (hc : maxNesting - c.depth = n) :
    Goes s (n + 1) 1 s.primary c := by
  rw [Stream.primary]
  refine Goes.next (fun _ => .fail s.stop_mem _ c) fun t ht => ?_
  have hplace : s.place t ∈ s.places := Stream.place_mem ht
  have hadvance : maxNesting - c.advance.depth = n := hc
  dsimp only
  split
  · split
    · exact .pure _ c.advance
    · exact .fail hplace _ c.advance
  · exact .pure _ c.advance
  · exact .pure _ c.advance
  · -- An expression in parentheses.
    refine ((hn c.advance hadvance).bind fun e c' _ => ?_).weaken
    exact ((Goes.expect _ _ c').bind fun _ c'' _ => .pure e c'').weaken
  · -- An array.
    refine (elements_goes hn c.advance hadvance).bind fun es c' _ => ?_
    exact ((Goes.expect _ _ c').bind fun _ c'' _ => .pure (array es) c'').weaken
  · exact named_goes hn ht c.advance hadvance
  all_goals exact .fail hplace _ c.advance

theorem chain_goes (c : Cursor) (hc : maxNesting - c.depth = n) : Goes s (n + 1) 1 s.chain c := by
  rw [Stream.chain]
  exact (primary_goes hn c hc).bind fun e c' _ => fields_goes e c'

end

theorem outcome_expression (s : Stream) (c : Cursor) :
    outcome s.expression c =
      (outcome s.admitted c.noteCall).map fun p => (p.1, p.2.noteReturn) := by
  rw [Stream.expression]
  change (outcome s.admitted c.noteCall >>= fun p => some (p.1, p.2.noteReturn)) = _
  cases outcome s.admitted c.noteCall <;> rfl

theorem outcome_admitted (s : Stream) (c : Cursor) :
    outcome s.admitted c =
      if maxNesting ≤ c.depth then
        some (.error ⟨.tooDeep, s.place s.tokens[c.position]?⟩, c)
      else (outcome s.chain c.enter).map fun p => (p.1, p.2.leave) := by
  rw [Stream.admitted, outcome_bind]
  change outcome (if maxNesting ≤ c.depth then _ else _) c = _
  split
  · rfl
  · change (outcome s.chain c.enter >>= fun p => some (p.1, p.2.leave)) = _
    cases outcome s.chain c.enter <;> rfl

theorem Goes.called (h : Goes s room least s.admitted c.noteCall) :
    Goes s (room + 1) least s.expression c := by
  obtain ⟨r, c', hr, ho⟩ := h
  refine ⟨r, c'.noteReturn, ?_, ho.around⟩
  rw [outcome_expression, hr]
  rfl

theorem expression_goes (s : Stream) (n : Nat) : Admits s n := by
  -- By induction on how many more expressions may be let in: each takes one place.
  induction n with
  | zero =>
    intro c hc
    have hfull : maxNesting ≤ c.depth := Nat.le_of_sub_eq_zero hc
    have hplace : s.place s.tokens[c.position]? ∈ s.places := s.place_ahead c.position
    refine Goes.called ⟨.error ⟨.tooDeep, _⟩, c.noteCall, ?_, .error_refl hplace _⟩
    exact (outcome_admitted s c.noteCall).trans (if_pos hfull)
  | succ n ih =>
    intro c hc
    have hroom : ¬ maxNesting ≤ c.depth := by omega
    have henter : maxNesting - c.noteCall.enter.depth = n := by
      change maxNesting - (c.depth + 1) = n
      omega
    obtain ⟨r, c', hr, ho⟩ := chain_goes ih c.noteCall.enter henter
    refine Goes.called ⟨r, c'.leave, ?_, ho.deeper⟩
    rw [outcome_admitted]
    refine (if_neg hroom).trans ?_
    rw [hr]
    rfl

theorem whole_goes (s : Stream) (c : Cursor) :
    Goes s (maxNesting - c.depth + 1) 1 s.whole c := by
  rw [Stream.whole]
  refine (expression_goes s _ c rfl).bind fun e c' _ => ?_
  apply Goes.peek
  have hplace : s.place s.tokens[c'.position]? ∈ s.places := s.place_ahead c'.position
  cases ht : s.tokens[c'.position]? with
  | none => exact .pure e c'
  | some t => exact .fail (ht ▸ hplace) _ c'

theorem whole_ends (s : Stream) (c : Cursor) : (outcome s.whole c).isSome := by
  obtain ⟨r, c', hr, -⟩ := whole_goes s c
  rw [hr]
  rfl

end Parser

end FrontEnd.Expr
