import Mathlib.Tactic.Common
import Mathlib.Data.List.Perm.Subperm

/-! # A memo table in front of a function that may fail

Only successful results are kept. A table is coherent when every entry is the
function's own result; a coherent table cannot be told from the function. A
table that only ever answered keys of a list is no longer than that list
(`Within.length_le`). -/
namespace Memo

variable {K V E : Type} [DecidableEq K]

/-- Answer from the table, else compute and, on success, keep the result. -/
def fetch (f : K → Except E V) (table : List (K × V)) (k : K) : Except E V × List (K × V) :=
  match table.lookup k with
  | some v => (.ok v, table)
  | none =>
    match f k with
    | .ok v => (.ok v, (k, v) :: table)
    | .error e => (.error e, table)

def Coherent (f : K → Except E V) (table : List (K × V)) : Prop :=
  ∀ k v, table.lookup k = some v → f k = .ok v

theorem coherent_nil (f : K → Except E V) : Coherent f [] := by
  intro k v h; cases h

theorem Coherent.cons {f : K → Except E V} {table : List (K × V)} (h : Coherent f table)
    {k : K} {v : V} (hv : f k = .ok v) : Coherent f ((k, v) :: table) := by
  intro k' v' hl
  rw [List.lookup_cons] at hl
  split at hl
  · next heq =>
    have hk : k' = k := by simpa using heq
    cases hl
    rw [hk]; exact hv
  · exact h k' v' hl

theorem Coherent.fetch_fst {f : K → Except E V} {table : List (K × V)} (h : Coherent f table)
    (k : K) : (fetch f table k).1 = f k := by
  unfold fetch
  split
  · next v hv => exact (h k v hv).symm
  · split
    · next v hv => exact hv.symm
    · next e he => exact he.symm

theorem Coherent.fetch_snd {f : K → Except E V} {table : List (K × V)} (h : Coherent f table)
    (k : K) : Coherent f (fetch f table k).2 := by
  unfold fetch
  split
  · exact h
  · split
    · next v hv => exact h.cons hv
    · exact h

/-! ## What a table holds -/

/-- No key twice, every entry a result of the function, and every key one of those that may be asked
for. -/
structure Within (f : K → Except E V) (P : K → Prop) (table : List (K × V)) : Prop where
  distinct : (table.map Prod.fst).Nodup
  entries : ∀ p ∈ table, f p.1 = .ok p.2
  keys : ∀ p ∈ table, P p.1

namespace Within
variable {f : K → Except E V} {P : K → Prop} {table : List (K × V)}

omit [DecidableEq K] in
theorem nil (f : K → Except E V) (P : K → Prop) : Within f P [] := by
  refine ⟨List.nodup_nil, ?_, ?_⟩ <;> (intro p hp; cases hp)

theorem fetch (h : Within f P table) {k : K} (hk : ∀ v, f k = .ok v → P k) :
    Within f P (fetch f table k).2 := by
  unfold Memo.fetch
  split
  · exact h
  · next hnone =>
    split
    · next v hv =>
      refine ⟨?_, ?_, ?_⟩
      · refine List.nodup_cons.mpr ⟨fun hmem => ?_, h.distinct⟩
        obtain ⟨p, hp, hpk⟩ := List.mem_map.mp hmem
        have hne := List.lookup_eq_none_iff.mp hnone p hp
        rw [hpk] at hne
        simp at hne
      · exact List.forall_mem_cons.mpr ⟨hv, h.entries⟩
      · exact List.forall_mem_cons.mpr ⟨hk v hv, h.keys⟩
    · exact h

omit [DecidableEq K] in
/-- A table is no longer than the list of the keys that may be asked for. -/
theorem length_le (h : Within f P table) {all : List K} (hall : ∀ k, P k → k ∈ all) :
    table.length ≤ all.length := by
  have hsub : table.map Prod.fst ⊆ all := by
    intro k hk
    obtain ⟨p, hp, rfl⟩ := List.mem_map.mp hk
    exact hall p.1 (h.keys p hp)
  have hle := (List.subperm_of_subset h.distinct hsub).length_le
  rwa [List.length_map] at hle

end Within
end Memo
