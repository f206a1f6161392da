import FrontEnd.Property.Local

/-!
The names of locals. Each stem has a counter of its own, and still no two locals have one name,
whatever the stems look like: the last underscore of a name stands before its number, so that both
can be read off. The counter of a stem tells how many locals were named for it.
-/
namespace FrontEnd

private theorem split_at_last {α : Type} {x : α} {as bs cs ds : List α} (hb : x ∉ bs)
    (hd : x ∉ ds) (h : as ++ x :: bs = cs ++ x :: ds) : as = cs ∧ bs = ds := by
  rcases List.append_eq_append_iff.mp h with ⟨mid, hcs, hbs⟩ | ⟨mid, has, hds⟩
  · cases mid with
    | nil =>
      rw [List.nil_append, List.cons.injEq] at hbs
      exact ⟨by simpa using hcs.symm, hbs.2⟩
    | cons y mid =>
      rw [List.cons_append, List.cons.injEq] at hbs
      exact absurd (hbs.2 ▸ List.mem_append_right mid List.mem_cons_self) hb
  · cases mid with
    | nil =>
      rw [List.nil_append, List.cons.injEq] at hds
      exact ⟨by simpa using has, hds.2.symm⟩
    | cons y mid =>
      rw [List.cons_append, List.cons.injEq] at hds
      exact absurd (hds.2 ▸ List.mem_append_right mid List.mem_cons_self) hd

/-- The stem and the number of a local are read off its name: digits hold no underscore, so the last
one stands before the number. -/
theorem Local.numbered_injective {stem stem' : String} {k k' : Nat}
    (h : stem ++ "_" ++ toString k = stem' ++ "_" ++ toString k') : stem = stem' ∧ k = k' := by
  have hchars : stem.toList ++ '_' :: Nat.toDigits 10 k =
      stem'.toList ++ '_' :: Nat.toDigits 10 k' := by
    simpa [Nat.toList_repr] using congrArg String.toList h
  obtain ⟨hstem, hdigits⟩ :=
    split_at_last Nat.underscore_not_in_toDigits Nat.underscore_not_in_toDigits hchars
  refine ⟨String.toList_inj.mp hstem, ?_⟩
  calc
    k = Nat.ofDigitChars 10 (Nat.toDigits 10 k) 0 := Nat.ofDigitChars_ten_toDigits.symm
    _ = Nat.ofDigitChars 10 (Nat.toDigits 10 k') 0 := by rw [hdigits]
    _ = k' := Nat.ofDigitChars_ten_toDigits

theorem lookup_countUp (key other : String) (counters : List (String × Nat)) :
    ((countUp key counters).lookup other).getD 0 =
      (counters.lookup other).getD 0 + if key = other then 1 else 0 := by
  induction counters with
  | nil =>
    by_cases h : key = other
    · simp [countUp, h]
    · have hne : (other == key) = false := beq_false_of_ne (Ne.symm h)
      simp [countUp, List.lookup_cons, hne, h]
  | cons counter rest ih =>
    obtain ⟨k, n⟩ := counter
    rw [countUp]
    by_cases hk : k = key
    · -- The counter is found here if the other key is this one, and else not touched.
      subst hk
      rw [if_pos rfl, List.lookup_cons, List.lookup_cons]
      by_cases ho : k = other
      · simp [ho]
      · have hne : (other == k) = false := beq_false_of_ne (Ne.symm ho)
        simp [hne, ho]
    · rw [if_neg hk, List.lookup_cons, List.lookup_cons]
      by_cases ho : other = k
      · have hother : key ≠ other := fun h => hk (ho.symm.trans h.symm)
        simp [ho, Ne.symm hk]
      · have hne : (other == k) = false := beq_false_of_ne ho
        rw [hne]
        exact ih

namespace Locals

variable {ls : Locals}

/-- Each local is named for a stem whose counter stands above its number, the names are distinct, and
what is released is what the types say. -/
structure Numbered (ls : Locals) : Prop where
  below : ∀ l ∈ ls.toList, ∃ stem, ∃ k < ls.count stem, l.name = stem ++ "_" ++ toString k
  distinct : (ls.toList.map Local.name).Nodup
  stored : ∀ l ∈ ls.toList, l.storage = .of l.ty

theorem numbered_empty : Numbered {} := ⟨by simp [toList], by simp [toList], by simp [toList]⟩

theorem toList_create (ls : Locals) (stem : String) (ty : Ty) :
    (ls.create stem ty).toList = ls.toList ++ [ls.next stem ty] := rfl

theorem count_create (ls : Locals) (stem stem' : String) (ty : Ty) :
    (ls.create stem ty).count stem' = ls.count stem' + if stem = stem' then 1 else 0 :=
  lookup_countUp stem stem' ls.counters

theorem Numbered.create (hls : ls.Numbered) (stem : String) (ty : Ty) :
    (ls.create stem ty).Numbered := by
  constructor
  case below =>
    intro l hl
    rw [toList_create] at hl
    rcases List.mem_append.mp hl with hold | hnew
    · obtain ⟨stem', k, hk, hname⟩ := hls.below l hold
      refine ⟨stem', k, ?_, hname⟩
      rw [count_create]
      exact Nat.lt_add_right _ hk
    · have heq : l = ls.next stem ty := List.mem_singleton.mp hnew
      refine ⟨stem, ls.count stem, ?_, heq ▸ rfl⟩
      rw [count_create, if_pos rfl]
      exact Nat.lt_succ_self _
  case distinct =>
    rw [toList_create, List.map_append, List.nodup_append]
    refine ⟨hls.distinct, by simp, ?_⟩
    intro old hold new hnew heq
    rw [List.map_singleton, List.mem_singleton] at hnew
    obtain ⟨l, hl, rfl⟩ := List.mem_map.mp hold
    obtain ⟨stem', k, hk, hname⟩ := hls.below l hl
    -- The old name would have the stem of the new one, and its number too.
    obtain ⟨hstem, hnumber⟩ := Local.numbered_injective ((hname.symm.trans heq).trans hnew)
    rw [hstem, hnumber] at hk
    exact Nat.lt_irrefl _ hk
  case stored =>
    rw [toList_create, List.forall_mem_append, List.forall_mem_singleton]
    exact ⟨hls.stored, rfl⟩

theorem Numbered.name_ne (hls : ls.Numbered) {name : String}
    (hn : name.toList.getLast?.any Char.isDigit = false) : ∀ l ∈ ls.toList, l.name ≠ name := by
  intro l hl hname
  obtain ⟨stem, k, -, hk⟩ := hls.below l hl
  obtain ⟨c, hc⟩ : ∃ c, (Nat.toDigits 10 k).getLast? = some c :=
    ⟨_, List.getLast?_eq_some_getLast Nat.toDigits_ne_nil⟩
  have hlast : name.toList.getLast? = some c := by
    rw [← hname, hk]
    simp [Nat.toList_repr, List.getLast?_append, List.getLast?_cons, hc]
  have hdigit : c.isDigit = true :=
    Nat.isDigit_of_mem_toDigits (by decide) (by decide) (List.mem_of_getLast? hc)
  rw [hlast, Option.any_some, hdigit] at hn
  cases hn

/-- Locals asked for, each by its stem and its type. -/
abbrev Requests := List (String × Ty)

def createAll (ls : Locals) (requests : Requests) : Locals :=
  requests.foldl (fun ls request => ls.create request.1 request.2) ls

/-- What each request is answered with. -/
def created (ls : Locals) : Requests → List Local
  | [] => []
  | (stem, ty) :: requests => ls.next stem ty :: (ls.create stem ty).created requests

theorem createAll_cons (ls : Locals) (stem : String) (ty : Ty) (requests : Requests) :
    ls.createAll ((stem, ty) :: requests) = (ls.create stem ty).createAll requests := rfl

theorem Numbered.createAll (hls : ls.Numbered) (requests : Requests) :
    (ls.createAll requests).Numbered := by
  induction requests generalizing ls with
  | nil => exact hls
  | cons request requests ih => exact ih (hls.create request.1 request.2)

theorem toList_createAll (ls : Locals) (requests : Requests) :
    (ls.createAll requests).toList = ls.toList ++ ls.created requests := by
  induction requests generalizing ls with
  | nil => exact (List.append_nil _).symm
  | cons request requests ih =>
    obtain ⟨stem, ty⟩ := request
    calc
      (ls.createAll ((stem, ty) :: requests)).toList
          = ((ls.create stem ty).createAll requests).toList := by rw [createAll_cons]
      _ = (ls.create stem ty).toList ++ (ls.create stem ty).created requests := ih _
      _ = ls.toList ++ ([ls.next stem ty] ++ (ls.create stem ty).created requests) := by
        rw [toList_create, List.append_assoc]

/-- How many of the requests are for the stem. -/
def asked (requests : Requests) (stem : String) : Nat := (requests.map (·.1)).count stem

theorem created_eq (ls : Locals) (requests : Requests) :
    ls.created requests = requests.mapIdx fun i request =>
      ⟨request.1 ++ "_" ++ toString (ls.count request.1 + asked (requests.take i) request.1),
        request.2⟩ := by
  induction requests generalizing ls with
  | nil => rfl
  | cons request requests ih =>
    obtain ⟨stem, ty⟩ := request
    rw [created, ih, List.mapIdx_cons]
    congr 1
    -- What the first request adds to a counter, it adds to the requests before the others.
    have hcount (i : Nat) (stem' : String) :
        (ls.create stem ty).count stem' + asked (requests.take i) stem' =
          ls.count stem' + asked (((stem, ty) :: requests).take (i + 1)) stem' := by
      rw [count_create, List.take_succ_cons, asked, asked, List.map_cons, List.count_cons]
      simp only [beq_iff_eq]
      omega
    simp only [hcount]

/-- Locals never collide. Whatever stems are asked for, in whatever order, the names are distinct; a
local has for its number how many were made for its stem before it; and all are listed in the order
in which they were made. -/
theorem created_names (requests : Requests) :
    ((created {} requests).map Local.name).Nodup ∧
    created {} requests = (requests.mapIdx fun i request =>
      ⟨request.1 ++ "_" ++ toString (asked (requests.take i) request.1), request.2⟩) ∧
    (createAll {} requests).toList = created {} requests := by
  have hlisted : (createAll {} requests).toList = created {} requests :=
    toList_createAll {} requests
  have hnumbered : (createAll {} requests).Numbered := numbered_empty.createAll requests
  have hnone (stem : String) : count {} stem = 0 := rfl
  refine ⟨hlisted ▸ hnumbered.distinct, ?_, hlisted⟩
  rw [created_eq]
  simp only [hnone, Nat.zero_add]

/-- A stem may look like the name of another local. -/
example : (created {} [("Env", .bool), ("Env_0", .int), ("Env", .int), ("Env_", .int)]).map
    Local.name = ["Env_0", "Env_0_0", "Env_1", "Env__0"] := by decide

end Locals

end FrontEnd
