/-
Many requests to one store of descriptors.

A request names a type, or shows a value and means its concrete type. `Cache.askAll` puts requests to a store one after
another and tells for each the place it was answered with and the store after it.

The store is decided by the types that were asked for: `Cache.after S types` has an entry for each, in the order of the
first request. One request adds one type (`Cache.ask_after`), so a run goes from `Cache.after` to `Cache.after`
(`Cache.getElem?_askAll`, `Cache.log_askAll`). Main statement, on every run of a new store: `Cache.askAll_empty`.
-/
import Mathlib.Data.Finset.Card
import DynAssign.Cache
import DynAssign.Proofs.Built

namespace DynAssign

namespace Value

theorem exists_layers (v : Value) : ∃ n x, v = Value.any^[n] x ∧ x.ty ≠ .any ∧ v.concrete.ty = x.ty := by
  fun_induction concrete v with
  | case1 v ih =>
    obtain ⟨n, x, hv, hx⟩ := ih
    exact ⟨n + 1, x, by rw [hv, Function.iterate_succ_apply'], hx⟩
  | case2 v h => exact ⟨0, v, rfl, by cases v <;> simp_all [ty], rfl⟩

end Value

namespace Cache

/-- what a store is asked for a descriptor with -/
inductive Request where
  | ofType (t : Ty)
  | ofValue (v : Value)

/-- the declared type that a request asks for; of a value the concrete one, dynamic slots aside -/
def Request.asked : Request → Ty
  | ofType t => t
  | ofValue v => v.concrete.ty

def ask (S : Schema) (c : Cache) : Request → Traced (Nat × Cache)
  | .ofType t => c.find S t
  | .ofValue v => c.findOf S v

theorem ask_eq_find (S : Schema) (c : Cache) (r : Request) : c.ask S r = c.find S r.asked := by
  cases r <;> rfl

/-- requests in order: the place that each is answered with, and the store after it -/
def askAll (S : Schema) (c : Cache) : List Request → Traced (List (Nat × Cache))
  | [] => pure []
  | r :: rs => do
    let (place, c) ← c.ask S r
    let answers ← askAll S c rs
    pure ((place, c) :: answers)

/-! ## Types in the order of the first request -/

/-- a type asked for again adds nothing, a new one comes last -/
theorem eraseDups_concat (types : List Ty) (t : Ty) :
    (types ++ [t]).eraseDups = if t ∈ types then types.eraseDups else types.eraseDups ++ [t] := by
  rw [List.eraseDups_append]
  split <;> simp_all [List.removeAll, List.eraseDups_cons]

theorem nodup_eraseDups (types : List Ty) : types.eraseDups.Nodup := by
  induction types using List.reverseRecOn with
  | nil => simp
  | append_singleton types t ih =>
    rw [eraseDups_concat]
    split
    · exact ih
    · next hnew =>
      rw [List.nodup_append]
      refine ⟨ih, by simp, ?_⟩
      intro u hu v hv
      rw [List.mem_eraseDups] at hu
      rw [List.mem_singleton] at hv
      rintro rfl
      exact hnew (hv ▸ hu)

theorem length_eraseDups (types : List Ty) : types.eraseDups.length = types.toFinset.card := by
  rw [← List.toFinset_card_of_nodup (nodup_eraseDups types)]
  congr 1
  ext t
  simp

/-- later requests leave the places of earlier types -/
theorem eraseDups_prefix (types later : List Ty) : types.eraseDups <+: (types ++ later).eraseDups := by
  rw [List.eraseDups_append]
  exact List.prefix_append _ _

/-- the place of a type among those asked for -/
def place (types : List Ty) (t : Ty) : Nat := types.eraseDups.idxOf t

section

variable {types : List Ty} {t u : Ty}

theorem getElem?_place (ht : t ∈ types) : types.eraseDups[place types t]? = some t :=
  List.getElem?_idxOf (List.mem_eraseDups.2 ht)

theorem place_append (ht : t ∈ types) (later : List Ty) : place (types ++ later) t = place types t := by
  obtain ⟨rest, hrest⟩ := eraseDups_prefix types later
  rw [place, ← hrest, List.idxOf_append_of_mem (List.mem_eraseDups.2 ht), place]

theorem place_inj (ht : t ∈ types) (hu : u ∈ types) : place types t = place types u ↔ t = u := by
  constructor
  · intro h
    have hplace := getElem?_place ht
    rw [h, getElem?_place hu] at hplace
    exact (Option.some.inj hplace).symm
  · rintro rfl
    rfl

end

/-! ## One request -/

/-- the store after these types were asked for -/
def after (S : Schema) (types : List Ty) : Cache := ⟨types.eraseDups.map fun t => (t, S.descriptor t)⟩

/-- the report of a type's description -/
def description (S : Schema) (t : Ty) : Event := .described t (S.descriptor t)

theorem after_nil (S : Schema) : after S [] = empty := rfl

section

variable {S : Schema} {types : List Ty} {t : Ty}

theorem size_after : (after S types).size = types.toFinset.card := by
  rw [← length_eraseDups, size, after, List.length_map]

theorem get?_after (i : Nat) : (after S types).get? i = types.eraseDups[i]?.map S.descriptor := by
  rw [get?, after, List.getElem?_map, Option.map_map]
  rfl

theorem findIdx?_after : (after S types).entries.findIdx? (·.1 = t) = types.eraseDups.idxOf? t := by
  rw [after, List.findIdx?_map, List.idxOf?]
  congr 1

/-- a type that was asked for is found, a new one is described and put at the end -/
theorem find_after (S : Schema) (types : List Ty) (t : Ty) :
    (after S types).find S t =
      ⟨(place (types ++ [t]) t, after S (types ++ [t])), if t ∈ types then [] else [description S t]⟩ := by
  rw [find, findIdx?_after]
  by_cases ht : t ∈ types
  · have hidx : types.eraseDups.idxOf? t = some (place types t) := by
      obtain ⟨i, hi⟩ := Option.isSome_iff_exists.1 (List.isSome_idxOf?.2 (List.mem_eraseDups.2 ht))
      rw [hi, place, List.idxOf_eq_getD_idxOf?, hi, Option.getD_some]
    have hafter : after S (types ++ [t]) = after S types := by rw [after, eraseDups_concat, if_pos ht, after]
    rw [hidx, place_append ht, hafter, if_pos ht]
    rfl
  · have hidx : types.eraseDups.idxOf? t = none := List.idxOf?_eq_none_iff.2 (by simpa using ht)
    have hplace : place (types ++ [t]) t = (after S types).size := by
      rw [place, eraseDups_concat, if_neg ht, List.idxOf_append_of_notMem (by simpa using ht)]
      simp [size, after]
    have hafter : after S (types ++ [t]) = ⟨(after S types).entries ++ [(t, S.descriptor t)]⟩ := by
      simp [after, eraseDups_concat, ht]
    rw [hidx, hplace, hafter, if_neg ht]
    rfl

theorem ask_after (S : Schema) (types : List Ty) (r : Request) :
    (after S types).ask S r = ⟨(place (types ++ [r.asked]) r.asked, after S (types ++ [r.asked])),
      if r.asked ∈ types then [] else [description S r.asked]⟩ := by
  rw [ask_eq_find, find_after]

end

/-! ## Runs of requests -/

section

variable (S : Schema)

/-- the i-th answer is the place of its type among the types asked for up to there, which are in the store after it -/
theorem getElem?_askAll (types : List Ty) (rs : List Request) (i : Nat) :
    ((after S types).askAll S rs).value[i]? = rs[i]?.map fun r =>
      let asked := types ++ (rs.take (i + 1)).map Request.asked
      (place asked r.asked, after S asked) := by
  induction rs generalizing types i with
  | nil => simp [askAll]
  | cons r rs ih =>
    rw [askAll, ask_after]
    cases i with
    | zero => simp
    | succ i =>
      have hrest := ih (types ++ [r.asked]) i
      simp only [Traced.value_bind, Traced.value_pure, List.getElem?_cons_succ, hrest]
      simp

/-- a run reports the types that are new, in the order in which they are first asked for -/
theorem log_askAll (types : List Ty) (rs : List Request) :
    types.eraseDups.map (description S) ++ ((after S types).askAll S rs).log =
      (types ++ rs.map Request.asked).eraseDups.map (description S) := by
  induction rs generalizing types with
  | nil => simp [askAll]
  | cons r rs ih =>
    have hrest := ih (types ++ [r.asked])
    rw [List.append_assoc, List.singleton_append] at hrest
    rw [askAll, ask_after, List.map_cons, ← hrest, eraseDups_concat]
    split <;> simp

/-- an answer of a new store is the place of its type among the types asked for up to there -/
theorem answer_askAll_empty {rs : List Request} {i p : Nat} {t : Ty} {c : Cache}
    (ht : (rs.map Request.asked)[i]? = some t) (hp : (empty.askAll S rs).value[i]? = some (p, c)) :
    let asked := (rs.map Request.asked).take (i + 1)
    p = place asked t ∧ c = after S asked ∧ t ∈ asked := by
  rw [List.getElem?_map, Option.map_eq_some_iff] at ht
  obtain ⟨r, hr, rfl⟩ := ht
  have hstep := getElem?_askAll S [] rs i
  rw [hr, Option.map_some, List.nil_append, List.map_take] at hstep
  cases hstep.symm.trans hp
  refine ⟨rfl, rfl, ?_⟩
  rw [List.mem_iff_getElem?]
  exact ⟨i, by simp [hr]⟩

theorem length_askAll (c : Cache) (rs : List Request) : (c.askAll S rs).value.length = rs.length := by
  induction rs generalizing c with
  | nil => rfl
  | cons r rs ih => simp [askAll, ih]

end

/-- **Descriptors do not depend on what was asked before, and each is built once.** The requests of a run to a new
store ask for a type, or show a value behind any number of dynamic slots and ask for its concrete type. Each is answered
with a place at which the store has the descriptor of its type, then and after all later requests; a later request is
answered with the same place iff it asks for the same type, even where two types have equal descriptors. After each
request the size is the number of different types asked for, and the run reports one description for each of them, in
the order of the first request. -/
theorem askAll_empty (S : Schema) (rs : List Request) :
    (∀ v, ∃ n x, v = Value.any^[n] x ∧ x.ty ≠ .any ∧ (Request.ofValue v).asked = x.ty) ∧
    let types := rs.map Request.asked
    let run := empty.askAll S rs
    run.value.length = rs.length ∧ run.log = types.eraseDups.map (description S) ∧
      ∀ i t p c, types[i]? = some t → run.value[i]? = some (p, c) →
        c.size = (types.take (i + 1)).toFinset.card ∧
        ∀ j u q d, i ≤ j → types[j]? = some u → run.value[j]? = some (q, d) →
          d.get? p = some (S.descriptor t) ∧ (q = p ↔ u = t) := by
  refine ⟨Value.exists_layers, ?_⟩
  intro types run
  have hlog := log_askAll S [] rs
  rw [after_nil, List.eraseDups_nil, List.map_nil, List.nil_append, List.nil_append] at hlog
  refine ⟨length_askAll S empty rs, hlog, ?_⟩
  intro i t p c ht hp
  obtain ⟨rfl, rfl, hmem⟩ := answer_askAll_empty S ht hp
  refine ⟨size_after, ?_⟩
  intro j u q d hij hu hq
  obtain ⟨rfl, rfl, humem⟩ := answer_askAll_empty S hu hq
  -- the types up to i come first among those up to j
  obtain ⟨later, hlater⟩ : types.take (i + 1) <+: types.take (j + 1) := List.take_prefix_take_left (by omega)
  have hplace : place (types.take (j + 1)) t = place (types.take (i + 1)) t := by rw [← hlater, place_append hmem]
  have htmem : t ∈ types.take (j + 1) := by
    rw [← hlater]
    exact List.mem_append_left _ hmem
  rw [← hplace]
  exact ⟨by rw [get?_after, getElem?_place htmem, Option.map_some], place_inj humem htmem⟩

/-- a record, then a pointer to one, asked for again by a nil pointer two dynamic slots deep: there are two places, and
the descriptors at them are equal -/
theorem askAll_empty_pointer :
    let node : Ty := .record "Node"
    let rs : List Request := [.ofType node, .ofType (.option node), .ofValue (.any (.any (.nil node)))]
    let run := empty.askAll Sample.schema rs
    run.value.map (·.1) = [0, 1, 1] ∧
      run.log = [description Sample.schema node, description Sample.schema (.option node)] ∧
      ∃ c, run.value[2]?.map (·.2) = some c ∧ c.size = 2 ∧
        c.get? 0 = some (Sample.schema.descriptor node) ∧ c.get? 1 = c.get? 0 := by
  intro node rs run
  obtain ⟨-, -, hlog, hanswers⟩ := askAll_empty Sample.schema rs
  obtain ⟨-, hfirst⟩ := hanswers 0 node 0 _ rfl rfl
  obtain ⟨hzero, -⟩ := hfirst 2 (.option node) 1 _ (by omega) rfl rfl
  obtain ⟨hsize, hlast⟩ := hanswers 2 (.option node) 1 _ rfl rfl
  obtain ⟨hone, -⟩ := hlast 2 (.option node) 1 _ le_rfl rfl rfl
  have hsame : Sample.schema.descriptor (.option node) = Sample.schema.descriptor node := rfl
  exact ⟨rfl, hlog, _, rfl, hsize, hzero, by rw [hone, hzero, hsame]⟩

end Cache

end DynAssign
