import FrontEnd.Proofs.ReferenceCounts

namespace FrontEnd

/-- The text goes on behind a line end. -/
def Breaks (s : String) : Prop := '\n' ∈ s.toList

instance : DecidablePred Breaks := fun s => inferInstanceAs (Decidable ('\n' ∈ s.toList))

section

variable {s t : String} {xs : List String}

theorem breaks_append : Breaks (s ++ t) ↔ Breaks s ∨ Breaks t := by simp [Breaks]

theorem breaks_between {before after : String} (hbefore : ¬ Breaks before) (hafter : ¬ Breaks after) :
    Breaks (before ++ s ++ after) ↔ Breaks s := by
  rw [breaks_append, breaks_append]
  simp [hbefore, hafter]

theorem breaks_ofList {cs : List Char} : Breaks (String.ofList cs) ↔ '\n' ∈ cs := by
  rw [Breaks, String.toList_ofList]

theorem breaks_intercalate (hs : ¬ Breaks s) :
    Breaks (s.intercalate xs) ↔ ∃ x ∈ xs, Breaks x := by
  cases xs with
  | nil => simp [Breaks]
  | cons x xs =>
    induction xs generalizing x with
    | nil => simp
    | cons y xs ih =>
      rw [String.intercalate_cons_cons, breaks_append, breaks_append, ih]
      simp [hs]

theorem not_breaks_toString (n : Int) : ¬ Breaks (toString n) := by
  have hdigits (k : Nat) : ¬ Breaks (toString k) := by
    rw [Nat.toString_eq_ofList_toDigits, breaks_ofList]
    intro hmem
    have hdigit := Nat.isDigit_of_mem_toDigits (by decide) (by decide) hmem
    revert hdigit
    decide
  cases n with
  | ofNat k => exact hdigits k
  | negSucc k =>
    have htext : toString (Int.negSucc k) = "-" ++ toString (k + 1) := rfl
    rw [htext, breaks_append, not_or]
    exact ⟨by decide, hdigits _⟩

end

/-- A word that generated code takes from elsewhere. -/
inductive Word where
  | name (x : String)
  | source (s : String)
  deriving DecidableEq

def Word.text : Word → String
  | name x => x
  | source s => s

def Word.source? : Word → Option String
  | name _ => none
  | source s => some s

namespace Term

mutual

def words : Term → List Word
  | bool _ | int _ => []
  | find s => [.source s]
  | var x => [.name x]
  | getSymbol token => token.words
  | field receiver name => .source name :: receiver.words
  | lookup e key boundary recursive _ =>
    e.words ++ key.words ++ boundaryWords boundary ++ recursive.words
  | call callee args => .name callee :: wordsAll args
  | envNode e => e.words
  | array element elements => .source (Ty.unqualified element.target) :: wordsAll elements

def boundaryWords : Option Term → List Word
  | none => []
  | some t => t.words

def wordsAll : List Term → List Word
  | [] => []
  | t :: ts => t.words ++ wordsAll ts

end

theorem breaks_stringLiteral {s : String} : Breaks (stringLiteral s) ↔ Breaks s := by
  have hquote : ¬ Breaks "\"" := by decide
  have hchar (c : Char) : '\n' ∈ (if c = '"' then ['"', '"'] else [c]) ↔ '\n' = c := by
    by_cases hc : c = '"'
    · rw [if_pos hc, hc]
      decide
    · rw [if_neg hc]
      exact List.mem_singleton
  calc
    Breaks (stringLiteral s) ↔
        '\n' ∈ s.toList.flatMap fun c => if c = '"' then ['"', '"'] else [c] := by
      simp only [stringLiteral, breaks_append, hquote, false_or, or_false]
      exact breaks_ofList
    _ ↔ ∃ c ∈ s.toList, '\n' = c := by simp only [List.mem_flatMap, hchar]
    _ ↔ Breaks s := by simp [Breaks]

theorem breaks_ofLower {s : String} : Breaks (Name.ofLower s).canonical ↔ Breaks s := by
  -- The words of a name begin with capitals, and a line end is none.
  have hupper (c : Char) : '\n' = c.toUpper ↔ '\n' = c := by
    unfold Char.toUpper
    split
    · rename_i hc
      -- Neither the small letter nor the capital is a line end.
      constructor
      · intro heq
        have hcode := congrArg (·.val.toNat) heq
        have hlow := UInt32.le_iff_toNat_le.mp hc.1
        have hhigh := UInt32.le_iff_toNat_le.mp hc.2
        simp at hcode hlow hhigh
        omega
      · rintro rfl
        revert hc
        decide
    · rfl
  have hcapital (start : Bool) (cs : List Char) :
      '\n' ∈ Text.capitalizeWords start cs ↔ '\n' ∈ cs := by
    induction cs generalizing start with
    | nil => rfl
    | cons c cs ih =>
      rw [Text.capitalizeWords, List.mem_cons, List.mem_cons, ih]
      cases start with
      | false => rfl
      | true => rw [if_pos rfl, hupper]
  rw [Name.ofLower, breaks_ofList, hcapital, Breaks]

theorem breaks_aggregate {xs : List String} : Breaks (aggregate xs) ↔ ∃ x ∈ xs, Breaks x := by
  unfold aggregate
  split
  · exact iff_of_false (by decide) (by simp)
  · exact (breaks_between (by decide) (by decide)).trans (by simp)
  · exact (breaks_between (by decide) (by decide)).trans (breaks_intercalate (by decide))

theorem breaks_lookupValue {unique : Bool} {s : String} :
    Breaks (lookupValue unique s) ↔ Breaks s := by
  unfold lookupValue
  split <;> exact breaks_between (by decide) (by decide)

mutual

/-- A term is broken over lines exactly where one of its words is. -/
theorem breaks_text_iff (t : Term) : Breaks t.text ↔ ∃ w ∈ t.words, Breaks w.text := by
  -- Each text is opened by `change`: what stands around the words is given and has no line end.
  match t with
  | .bool true => exact iff_of_false (by decide : ¬ Breaks "True") (by simp [words])
  | .bool false => exact iff_of_false (by decide : ¬ Breaks "False") (by simp [words])
  | .int n => exact iff_of_false (not_breaks_toString n.toInt) (by simp [words])
  | .find s =>
    change Breaks ("Find (Self.Unit.TDH.Symbols, " ++ stringLiteral s ++ ")") ↔ _
    rw [breaks_between (by decide) (by decide), breaks_stringLiteral]
    simp [words, Word.text]
  | .var x =>
    change Breaks x ↔ _
    simp [words, Word.text]
  | .getSymbol token =>
    change Breaks ("Get_Symbol (" ++ token.text ++ ")") ↔ _
    rw [breaks_between (by decide) (by decide), breaks_text_iff token, words]
  | .field receiver name =>
    have hpoint : ¬ Breaks ".F_" := by decide
    change Breaks (receiver.text ++ ".F_" ++ (Name.ofLower name).canonical) ↔ _
    rw [breaks_append, breaks_append, breaks_text_iff receiver, breaks_ofLower]
    simp [words, Word.text, hpoint, or_comm]
  | .lookup e key boundary recursive unique =>
    have hself : ¬ Breaks "AST_Envs.Get (Self => " := by decide
    have hkey : ¬ Breaks ", Key => " := by decide
    have hrecursive : ¬ Breaks ", Recursive => " := by decide
    have hclose : ¬ Breaks ")" := by decide
    change Breaks (lookupValue unique _) ↔ _
    simp only [breaks_lookupValue, breaks_append, breaks_text_iff e, breaks_text_iff key,
      breaks_boundaryText_iff boundary, breaks_text_iff recursive, words, List.mem_append,
      or_and_right, exists_or, hself, hkey, hrecursive, hclose, false_or, or_false]
  | .call callee args =>
    have hopen : ¬ Breaks " (" := by decide
    have hclose : ¬ Breaks ")" := by decide
    have hargs : Breaks (", ".intercalate (texts args)) ↔ ∃ w ∈ wordsAll args, Breaks w.text :=
      (breaks_intercalate (by decide)).trans (breaks_texts_iff args)
    change Breaks (callee ++ " (" ++ ", ".intercalate (texts args) ++ ")") ↔ _
    simp [breaks_append, hopen, hclose, hargs, words, Word.text]
  | .envNode e =>
    have hnode : ¬ Breaks ".Node" := by decide
    change Breaks (e.text ++ ".Node") ↔ _
    rw [breaks_append, breaks_text_iff e, words]
    simp [hnode]
  | .array element elements =>
    have harray : ¬ Breaks "_Array" := by decide
    have hquote : ¬ Breaks "'" := by decide
    have helements : Breaks (aggregate (texts elements)) ↔ ∃ w ∈ wordsAll elements, Breaks w.text :=
      breaks_aggregate.trans (breaks_texts_iff elements)
    change Breaks (Ty.unqualified element.target ++ "_Array" ++ "'" ++
      aggregate (texts elements)) ↔ _
    simp [breaks_append, harray, hquote, helements, words, Word.text]

theorem breaks_boundaryText_iff (b : Option Term) :
    Breaks (boundaryText b) ↔ ∃ w ∈ boundaryWords b, Breaks w.text := by
  match b with
  | none => exact iff_of_false (by decide) (by simp [boundaryWords])
  | some t =>
    have hfrom : ¬ Breaks ", From => " := by decide
    change Breaks (", From => " ++ t.text) ↔ _
    rw [breaks_append, breaks_text_iff t, boundaryWords]
    simp [hfrom]

theorem breaks_texts_iff (ts : List Term) :
    (∃ s ∈ texts ts, Breaks s) ↔ ∃ w ∈ wordsAll ts, Breaks w.text := by
  match ts with
  | [] => exact iff_of_false (by rintro ⟨s, hs, -⟩; cases hs) (by simp [wordsAll])
  | t :: ts =>
    change (∃ s ∈ t.text :: texts ts, Breaks s) ↔ _
    simp [wordsAll, breaks_text_iff t, breaks_texts_iff ts, or_and_right, exists_or]

end

end Term

namespace Statement

def words : Statement → List Word
  | assign x value => .name x :: value.words
  | retain x => [.name x]

/-- The texts of the source that the statement shows. -/
def sources (st : Statement) : List String := st.words.filterMap Word.source?

theorem mem_sources_iff {st : Statement} {s : String} : s ∈ st.sources ↔ .source s ∈ st.words := by
  rw [sources, List.mem_filterMap]
  constructor
  · intro hx
    obtain ⟨w, hw, hs⟩ := hx
    cases w with
    | name => cases hs
    | source => cases hs; exact hw
  · intro hs
    exact ⟨_, hs, rfl⟩

theorem breaks_text_iff (st : Statement) : Breaks st.text ↔ ∃ w ∈ st.words, Breaks w.text := by
  cases st with
  | assign x value =>
    have hassign : ¬ Breaks " := " := by decide
    have hend : ¬ Breaks ";" := by decide
    change Breaks (x ++ " := " ++ value.text ++ ";") ↔ _
    simp [breaks_append, hassign, hend, value.breaks_text_iff, words, Word.text]
  | retain x =>
    change Breaks ("Inc_Ref (" ++ x ++ ");") ↔ _
    rw [breaks_between (by decide) (by decide)]
    simp [words, Word.text]

end Statement

namespace Resolved

def named? : Resolved → Option String
  | var _ name => some name
  | call _ callee _ => some callee
  | _ => none

def source? : Resolved → Option String
  | literal _ (.text s) => some s
  | field _ _ name => some name
  | array _ _ elementTy => some (Ty.unqualified elementTy.target)
  | _ => none

/-- The words that the node itself puts into generated code. -/
def ownWords (r : Resolved) : List Word :=
  r.ownNames.map .name ++ r.named?.toList.map .name ++ r.source?.toList.map .source

def words (r : Resolved) : List Word := r.nodes.flatMap ownWords

variable {r c : Resolved} {w : Word}

theorem words_eq (r : Resolved) : r.words = r.ownWords ++ r.children.flatMap words :=
  flatMap_nodes ownWords r

theorem mem_words_of_own (hw : w ∈ r.ownWords) : w ∈ r.words := by
  rw [words_eq]
  exact List.mem_append_left _ hw

theorem mem_words_of_child (hc : c ∈ r.children) (hw : w ∈ c.words) : w ∈ r.words := by
  rw [words_eq]
  exact List.mem_append_right _ (List.mem_flatMap.mpr ⟨c, hc, hw⟩)

theorem name_mem_words {l : Local} (hl : l.name ∈ r.ownNames) : .name l.name ∈ r.words :=
  mem_words_of_own (List.mem_append_left _ (List.mem_append_left _ (List.mem_map_of_mem hl)))

theorem named_mem_ownWords {x : String} (hx : r.named? = some x) : .name x ∈ r.ownWords := by
  simp [ownWords, hx]

theorem source_mem_ownWords {s : String} (hs : r.source? = some s) : .source s ∈ r.ownWords := by
  simp [ownWords, hs]

theorem mem_wordsAll_terms {rs : List Resolved} :
    w ∈ Term.wordsAll (terms rs) ↔ ∃ r ∈ rs, w ∈ r.term.words := by
  induction rs with
  | nil => simp [terms, Term.wordsAll]
  | cons r rs ih =>
    change w ∈ r.term.words ++ Term.wordsAll (terms rs) ↔ _
    simp [ih]

theorem mem_value_words (hw : w ∈ r.value.words) :
    w ∈ r.ownWords ∨ ∃ c ∈ r.children, w ∈ c.term.words := by
  -- A word stands in the text of the operation or in the term of a part.
  cases r with
  | literal i v =>
    cases v with
    | text s =>
      cases List.mem_singleton.mp hw
      exact .inl (source_mem_ownWords rfl)
    | bool | int => cases hw
  | var i name =>
    cases List.mem_singleton.mp hw
    exact .inl (named_mem_ownWords rfl)
  | getSymbol i c | envNode i c => exact .inr ⟨c, List.mem_cons_self, hw⟩
  | field i c name =>
    rcases List.mem_cons.mp hw with rfl | hw
    · exact .inl (source_mem_ownWords rfl)
    · exact .inr ⟨c, List.mem_cons_self, hw⟩
  | lookup i e key boundary recursive unique =>
    right
    cases boundary with
    | none =>
      change w ∈ e.term.words ++ key.term.words ++ [] ++ recursive.term.words at hw
      simpa [children, or_assoc] using hw
    | some b =>
      change w ∈ e.term.words ++ key.term.words ++ b.term.words ++ recursive.term.words at hw
      simpa [children, or_assoc] using hw
  | call i callee args =>
    rcases List.mem_cons.mp hw with rfl | hw
    · exact .inl (named_mem_ownWords rfl)
    · exact .inr (mem_wordsAll_terms.mp hw)
  | array i elements elementTy =>
    rcases List.mem_cons.mp hw with rfl | hw
    · exact .inl (source_mem_ownWords rfl)
    · exact .inr (mem_wordsAll_terms.mp hw)
  | bind i e x body => exact .inr ⟨body, by simp [children], hw⟩

theorem mem_held_words {info : NodeInfo} {value : Term} (hw : w ∈ (held info value).words) :
    (∃ l ∈ info.result, w = .name l.name) ∨ w ∈ value.words := by
  unfold held at hw
  split at hw
  · rename_i l hl
    exact .inl ⟨l, hl, List.mem_singleton.mp hw⟩
  · exact .inr hw

theorem mem_words_of_value (hparts : ∀ c ∈ r.children, w ∈ c.term.words → w ∈ c.words)
    (hw : w ∈ r.value.words) : w ∈ r.words := by
  rcases mem_value_words hw with hown | ⟨c, hc, hterm⟩
  · exact mem_words_of_own hown
  · exact mem_words_of_child hc (hparts c hc hterm)

theorem mem_words_of_term (hw : w ∈ r.term.words) : w ∈ r.words := by
  induction r using children_induction with
  | step r ih =>
    rcases mem_held_words hw with ⟨l, hl, rfl⟩ | hvalue
    · exact name_mem_words (result_mem_ownNames hl)
    · exact mem_words_of_value ih hvalue

theorem mem_store_words {info : NodeInfo} {value : Term} {st : Statement}
    (hst : st ∈ store info value) (hw : w ∈ st.words) :
    (∃ l ∈ info.result, w = .name l.name) ∨ w ∈ value.words := by
  unfold store at hst
  split at hst
  · rename_i l hl
    cases List.mem_singleton.mp hst
    rcases List.mem_cons.mp hw with rfl | hw
    · exact .inl ⟨l, hl, rfl⟩
    · exact .inr hw
  · cases hst

theorem mem_words_of_statement {st : Statement} (hst : st ∈ r.statements) (hw : w ∈ st.words) :
    w ∈ r.words := by
  induction r using children_induction with
  | step r ih =>
    -- A node with a local of its own assigns it last, behind the statements of its parts.
    have hstore {value : Term} (hst : st ∈ store r.info value)
        (hvalue : w ∈ value.words → w ∈ r.words) : w ∈ r.words := by
      rcases mem_store_words hst hw with ⟨l, hl, rfl⟩ | hmem
      · exact name_mem_words (result_mem_ownNames hl)
      · exact hvalue hmem
    cases hb : r.bound? with
    | none =>
      rw [statements_eq hb] at hst
      rcases List.mem_append.mp hst with hparts | hown
      · rw [statementsAll_eq_flatMap, List.mem_flatMap] at hparts
        obtain ⟨c, hc, hpart⟩ := hparts
        exact mem_words_of_child hc (ih c hc hpart)
      · exact hstore hown (mem_words_of_value fun c _ => mem_words_of_term)
    | some x =>
      obtain ⟨i, e, body, rfl⟩ := eq_bind_of_bound hb
      have he : e ∈ (bind i e x body).children := List.mem_cons_self
      have hbody : body ∈ (bind i e x body).children := by simp [children]
      have hx : .name x.name ∈ (bind i e x body).words := name_mem_words (bound_mem_ownNames rfl)
      simp only [statements, List.mem_append, List.mem_cons, List.not_mem_nil, or_false] at hst
      rcases hst with ((hpart | rfl | rfl) | hpart) | hown
      · exact mem_words_of_child he (ih e he hpart)
      · rcases List.mem_cons.mp hw with rfl | hterm
        · exact hx
        · exact mem_words_of_child he (mem_words_of_term hterm)
      · cases List.mem_singleton.mp hw
        exact hx
      · exact mem_words_of_child hbody (ih body hbody hpart)
      · exact hstore hown fun hterm => mem_words_of_child hbody (mem_words_of_term hterm)

end Resolved

theorem Locals.not_breaks_next (ls : Locals) {stem : String} (ty : Ty) (hs : ¬ Breaks stem) :
    ¬ Breaks (ls.next stem ty).name := by
  have hscore : ¬ Breaks "_" := by decide
  have hnumber : ¬ Breaks (toString (ls.count stem)) := not_breaks_toString (ls.count stem)
  simpa [Locals.next, breaks_append, hs, hscore] using hnumber

namespace Resolved

/-- The names that the node puts into generated code have no line ends. -/
structure WholeNames (r : Resolved) : Prop where
  locals : ∀ l ∈ r.ownLocals, ¬ Breaks l.name
  named : ∀ x ∈ r.named?, ¬ Breaks x

theorem WholeNames.of_none {r : Resolved} (hl : r.ownLocals = []) (hn : r.named? = none) :
    r.WholeNames :=
  ⟨by simp [hl], by simp [hn]⟩

theorem WholeNames.of_named {r : Resolved} {x : String} (hl : r.ownLocals = [])
    (hn : r.named? = some x) (hx : ¬ Breaks x) : r.WholeNames :=
  ⟨by simp [hl], by simpa [hn] using hx⟩

theorem WholeNames.of_result {r : Resolved} {ls : Locals} {stem : String} {ty : Ty}
    (hb : r.bound? = none) (hr : r.info.result = some (ls.next stem ty)) (hs : ¬ Breaks stem)
    (hn : ∀ x ∈ r.named?, ¬ Breaks x) : r.WholeNames :=
  ⟨by simpa [ownLocals, hb, hr] using ls.not_breaks_next ty hs, hn⟩

theorem not_breaks_of_name {r : Resolved} (hr : ∀ n ∈ r.nodes, n.WholeNames) {x : String}
    (hx : .name x ∈ r.words) : ¬ Breaks x := by
  obtain ⟨n, hn, hown⟩ := List.mem_flatMap.mp hx
  obtain ⟨hlocals, hnamed⟩ := hr n hn
  simp only [ownWords, ownNames, List.mem_append, List.mem_map, Word.name.injEq] at hown
  rcases hown with (⟨_, ⟨l, hl, rfl⟩, rfl⟩ | ⟨_, hname, rfl⟩) | ⟨_, _, hsource⟩
  · exact hlocals l hl
  · exact hnamed _ (Option.mem_toList.mp hname)
  · cases hsource

end Resolved

section

open Resolved

variable {h : Hierarchy}

theorem KeySymbol.whole_names {k k' : Resolved} (hs : KeySymbol k k')
    (hk : ∀ n ∈ k.nodes, n.WholeNames) : ∀ n ∈ k'.nodes, n.WholeNames := by
  cases hs with
  | symbol => exact hk
  | token => exact (forall_nodes_iff _).mpr ⟨.of_none rfl rfl, by simpa [children] using hk⟩

theorem Boundary.whole_names {scope : Scope} {sequential : Bool} {b : Option Resolved}
    (hb : Boundary h scope sequential b) : ∀ r ∈ b, ∀ n ∈ r.nodes, n.WholeNames := by
  cases hb with
  | none => simp
  | self =>
    intro r hr
    cases hr
    exact (forall_nodes_iff _).mpr ⟨.of_named rfl rfl (by decide), by simp [children]⟩

mutual

theorem Constructs.whole_names {scope : Scope} {expected : Option Ty} {g g' : Gathered} {e : Expr}
    {r : Resolved} (hc : Constructs h scope expected g e r g') (hs : ¬ Breaks scope.envName) :
    ∀ n ∈ r.nodes, n.WholeNames := by
  match hc with
  | .fits hn _ => exact hn.whole_names hs

theorem ConstructsNode.whole_names {scope : Scope} {expected : Option Ty} {g g' : Gathered}
    {e : Expr} {r : Resolved} (hc : ConstructsNode h scope expected g e r g')
    (hs : ¬ Breaks scope.envName) : ∀ n ∈ r.nodes, n.WholeNames := by
  rw [forall_nodes_iff]
  match hc with
  | .literal _ => exact ⟨.of_none rfl rfl, by simp [children]⟩
  | .self _ => exact ⟨.of_named rfl rfl (by decide), by simp [children]⟩
  | .env _ => exact ⟨.of_named rfl rfl hs, by simp [children]⟩
  | .emptyEnv => exact ⟨.of_named rfl rfl (by decide), by simp [children]⟩
  | .field hr _ _ => exact ⟨.of_none rfl rfl, by simpa [children] using hr.whole_names hs⟩
  | .array hes _ => exact ⟨.of_none rfl rfl, hes.whole_names hs⟩
  | .lookup _ hk hsym he hb hrec _ =>
    refine ⟨.of_result rfl rfl (by decide) (by simp [named?]), ?_⟩
    simpa [children, or_imp, forall_and] using
      ⟨he.whole_names hs, hsym.whole_names (hk.whole_names hs), hb.whole_names, hrec.whole_names hs⟩
  | .evalInEnv he hx hb =>
    -- The environment in the body is the local that is bound.
    have hbound : ¬ Breaks _ := hx ▸ Locals.not_breaks_next _ _ (by decide)
    refine ⟨⟨by simpa [ownLocals, bound?, info] using hbound, by simp [named?]⟩, ?_⟩
    simpa [children] using ⟨he.whole_names hs, hb.whole_names hbound⟩
  | .orphan he =>
    refine ⟨.of_result rfl rfl (by decide) ?_, by simpa [children] using he.whole_names hs⟩
    simpa [named?] using (by decide : ¬ Breaks "AST_Envs.Orphan")
  | .group he =>
    refine ⟨.of_result rfl rfl (by decide) ?_, by simpa [children] using he.whole_names hs⟩
    simpa [named?] using (by decide : ¬ Breaks "Group")
  | .groupAll hes _ =>
    have harray : ∀ n ∈ (array ⟨.array .lexicalEnv, none⟩ _ .lexicalEnv).nodes, n.WholeNames :=
      (forall_nodes_iff _).mpr ⟨.of_none rfl rfl, hes.whole_names hs⟩
    refine ⟨.of_result rfl rfl (by decide) ?_,
      by simpa only [children, List.forall_mem_singleton] using harray⟩
    simpa [named?] using (by decide : ¬ Breaks "Group")
  | .isVisibleFrom hb hr =>
    exact ⟨.of_named rfl rfl (by decide),
      by simpa [children] using ⟨hb.whole_names hs, hr.whole_names hs⟩⟩
  | .envNode he _ => exact ⟨.of_none rfl rfl, by simpa [children] using he.whole_names hs⟩

theorem ConstructsAll.whole_names {scope : Scope} {expected : Option Ty} {g g' : Gathered}
    {es : List Expr} {rs : List Resolved} (hc : ConstructsAll h scope expected g es rs g')
    (hs : ¬ Breaks scope.envName) : ∀ r ∈ rs, ∀ n ∈ r.nodes, n.WholeNames := by
  match hc with
  | .nil => simp
  | .cons he hes =>
    rw [List.forall_mem_cons]
    exact ⟨he.whole_names hs, hes.whole_names hs⟩

end

end

namespace PropertyDecl

variable {h : Hierarchy} {p : PropertyDecl} {ir : Property}

theorem check_whole_names (hc : p.check h = .ok ir) : ∀ n ∈ ir.body.nodes, n.WholeNames := by
  obtain ⟨-, -, r, g, hr, rfl⟩ := check_derives hc
  have henv : ¬ Breaks (({} : Scope).bindDefault p.signature).envName := by
    unfold Scope.bindDefault
    split <;> exact (by decide : ¬ Breaks "Current_Env")
  exact hr.whole_names henv

theorem check_breaks_iff (hc : p.check h = .ok ir) {st : Statement}
    (hst : st ∈ ir.body.statements) :
    Breaks st.text ↔ ∃ s ∈ st.sources, Breaks s := by
  simp only [st.breaks_text_iff, Statement.mem_sources_iff]
  constructor
  · intro hx
    obtain ⟨w, hw, hbreaks⟩ := hx
    cases w with
    | source s => exact ⟨s, hw, hbreaks⟩
    | name x =>
      have hname := Resolved.mem_words_of_statement hst hw
      exact absurd hbreaks (Resolved.not_breaks_of_name (check_whole_names hc) hname)
  · intro hx
    obtain ⟨s, hs, hbreaks⟩ := hx
    exact ⟨.source s, hs, hbreaks⟩

end PropertyDecl

end FrontEnd
