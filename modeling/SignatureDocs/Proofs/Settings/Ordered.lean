import Mathlib
import SignatureDocs.Settings.Load

/-!
Tables have their keys in order. Each key of a layer comes once, in every table of it, whether the layer was read
from a file or from the environment, and laying one layer over another keeps it so.
-/
namespace SignatureDocs

open SignatureDocs.Text

variable {α : Type}

/-- The keys of a table are in strict order, so that none comes twice. -/
def KeysOrdered (fields : List (String × α)) : Prop :=
  (fields.map Prod.fst).Pairwise (· < ·)

theorem KeysOrdered.tail {k : String} {a : α} {fields : List (String × α)}
    (h : KeysOrdered ((k, a) :: fields)) : KeysOrdered fields := (List.pairwise_cons.mp h).2

theorem mem_putKey {key : String} {a : α} {p : String × α} {fields : List (String × α)}
    (h : p ∈ putKey key a fields) : p = (key, a) ∨ p ∈ fields := by
  induction fields with
  | nil => simpa [putKey] using h
  | cons q rest ih =>
    obtain ⟨k, b⟩ := q
    unfold putKey at h
    split_ifs at h <;> grind

@[simp] theorem lookup_putKey (key k : String) (a : α) (fields : List (String × α)) :
    (putKey key a fields).lookup k = if k = key then some a else fields.lookup k := by
  induction fields with
  | nil =>
    rw [putKey]
    grind
  | cons q rest ih =>
    obtain ⟨k', b⟩ := q
    unfold putKey
    split_ifs <;> grind

theorem keysOrdered_putKey {key : String} {fields : List (String × α)} (h : KeysOrdered fields) (a : α) :
    KeysOrdered (putKey key a fields) := by
  induction fields with
  | nil => simp [putKey, KeysOrdered]
  | cons q rest ih =>
    obtain ⟨k, b⟩ := q
    have hrest : ∀ x ∈ rest.map Prod.fst, k < x := (List.pairwise_cons.mp h).1
    unfold putKey
    split_ifs with hlt heq
    · refine List.pairwise_cons.mpr ⟨fun x hx => ?_, h⟩
      rcases List.mem_cons.mp hx with rfl | hx
      · exact hlt
      · exact hlt.trans (hrest x hx)
    · exact heq ▸ h
    · refine List.pairwise_cons.mpr ⟨fun x hx => ?_, ih h.tail⟩
      obtain ⟨p, hp, rfl⟩ := List.mem_map.mp hx
      rcases mem_putKey hp with rfl | hp
      · exact lt_of_le_of_ne (not_lt.mp hlt) (Ne.symm heq)
      · exact hrest p.1 (List.mem_map_of_mem hp)

theorem KeysOrdered.lookup_of_mem {k : String} {a : α} {fields : List (String × α)} (h : KeysOrdered fields)
    (hmem : (k, a) ∈ fields) : fields.lookup k = some a := by
  induction fields with
  | nil => simp at hmem
  | cons q rest ih =>
    obtain ⟨k', b⟩ := q
    rcases List.mem_cons.mp hmem with heq | hmem
    · obtain ⟨rfl, rfl⟩ := Prod.mk.inj heq
      simp
    · have hlt : k' < k := (List.pairwise_cons.mp h).1 k (List.mem_map_of_mem (f := Prod.fst) hmem)
      have hne : (k == k') = false := by simpa using hlt.ne'
      rw [List.lookup_cons, hne]
      exact ih h.tail hmem

theorem KeysOrdered.lookup_tail_eq_none {k : String} {a : α} {fields : List (String × α)}
    (h : KeysOrdered ((k, a) :: fields)) : fields.lookup k = none := by
  rw [List.lookup_eq_none_iff]
  intro p hp
  have hlt := (List.pairwise_cons.mp h).1 p.1 (List.mem_map_of_mem hp)
  simpa using hlt.ne

theorem mem_of_lookup_eq_some {k : String} {a : α} {fields : List (String × α)}
    (h : fields.lookup k = some a) : (k, a) ∈ fields := by
  obtain ⟨front, back, rfl, -⟩ := List.lookup_eq_some_iff.mp h
  simp

theorem KeysOrdered.sublist {fields fields' : List (String × α)} (h : KeysOrdered fields)
    (hsub : fields'.Sublist fields) : KeysOrdered fields' :=
  List.Pairwise.sublist (hsub.map Prod.fst) h

/-- A table whose keys are in order and whose values all have a property. -/
def TableOf (p : α → Prop) (fields : List (String × α)) : Prop :=
  KeysOrdered fields ∧ ∀ q ∈ fields, p q.2

namespace TableOf

variable {p : α → Prop} {fields : List (String × α)}

theorem nil : TableOf p [] := ⟨List.Pairwise.nil, by simp⟩

theorem putKey (h : TableOf p fields) {a : α} (ha : p a) (key : String) :
    TableOf p (SignatureDocs.putKey key a fields) := by
  refine ⟨keysOrdered_putKey h.1 a, fun q hq => ?_⟩
  rcases mem_putKey hq with rfl | hq
  · exact ha
  · exact h.2 q hq

theorem of_lookup (h : TableOf p fields) {k : String} {a : α} (hk : fields.lookup k = some a) : p a :=
  h.2 (k, a) (mem_of_lookup_eq_some hk)

theorem sortKeys (h : ∀ q ∈ fields, p q.2) : TableOf p (SignatureDocs.sortKeys fields) := by
  unfold SignatureDocs.sortKeys
  refine List.foldlRecOn fields _ nil fun acc hacc q hq => ?_
  exact hacc.putKey (h q hq) q.1

end TableOf

/-- The keys of a value that is a table are in order, and so are those of the tables in it. What is in a list does
not count. -/
inductive Value.Ordered : Value → Prop
  | table {fields : List (String × Value)} (keys : KeysOrdered fields) (values : ∀ q ∈ fields, Ordered q.2) :
    Ordered (.table fields)
  | other {v : Value} (h : ∀ fields, v ≠ .table fields) : Ordered v

/-- The keys of a setting that is a table are in order, and so are those of the tables in it. -/
inductive Setting.Ordered : Setting → Prop
  | given (o : Origin) (v : Value) : Ordered (.given o v)
  | table {fields : List (String × Setting)} (o : Origin) (keys : KeysOrdered fields)
    (settings : ∀ q ∈ fields, Ordered q.2) : Ordered (.table o fields)

namespace Setting

theorem Ordered.fields {o : Origin} {fields : List (String × Setting)} (h : (Setting.table o fields).Ordered) :
    TableOf Ordered fields := by
  cases h with
  | table _ keys settings => exact ⟨keys, settings⟩

theorem map_fst_ofFields (o : Origin) (fields : List (String × Value)) :
    (ofFields o fields).map Prod.fst = fields.map Prod.fst := by
  induction fields with
  | nil => rfl
  | cons q rest ih => simp [ofFields, ih]

mutual

theorem ordered_ofValue (o : Origin) : (v : Value) → v.Ordered → (ofValue o v).Ordered
  | .table fields, h => by
    cases h with
    | table keys values =>
      have hfields := tableOf_ofFields o fields values keys
      exact .table o hfields.1 hfields.2
    | other h => exact absurd rfl (h fields)
  | .text _, _ | .char _, _ | .bool _, _ | .unsigned _, _ | .signed _, _ | .float _, _ | .array _, _ =>
    .given o _

theorem tableOf_ofFields (o : Origin) : (fields : List (String × Value)) →
    (∀ q ∈ fields, q.2.Ordered) → KeysOrdered fields → TableOf Ordered (ofFields o fields)
  | [], _, _ => .nil
  | (k, v) :: rest, h, keys => by
    have hrest := tableOf_ofFields o rest (fun q hq => h q (List.mem_cons_of_mem _ hq)) keys.tail
    refine ⟨?_, fun q hq => ?_⟩
    · rw [KeysOrdered, map_fst_ofFields]
      exact keys
    · rcases List.mem_cons.mp hq with rfl | hq
      · exact ordered_ofValue o v (h (k, v) (by simp))
      · exact hrest.2 q hq

end

mutual

theorem ordered_overlay {below : Setting} (hb : below.Ordered) :
    (above : Setting) → above.Ordered → (overlay below above).Ordered
  | .given o v, _ => by
    rw [overlay]
    exact .given o v
  | .table o fields, h => by
    cases below with
    | given o' v =>
      rw [overlay]
      exact h
    | table o' fields' =>
      rw [overlay]
      have hfields := tableOf_overlayFields fields h.fields.2 hb.fields
      exact .table o' hfields.1 hfields.2

/-- Fields laid over others are in order again. -/
theorem tableOf_overlayFields {below : List (String × Setting)} : (above : List (String × Setting)) →
    (∀ q ∈ above, q.2.Ordered) → TableOf Ordered below → TableOf Ordered (overlayFields below above)
  | [], _, hb => by
    rw [overlayFields]
    exact hb
  | (k, s) :: rest, ha, hb => by
    rw [overlayFields]
    have hs : s.Ordered := ha (k, s) (by simp)
    refine tableOf_overlayFields rest (fun q hq => ha q (List.mem_cons_of_mem _ hq)) (hb.putKey ?_ k)
    cases hlook : below.lookup k with
    | none => exact hs
    | some b => exact ordered_overlay (hb.of_lookup hlook) s hs

end

theorem ordered_nest (o : Origin) (path : List String) {v : Value} (hv : v.Ordered) :
    (nest o path v).Ordered := by
  induction path with
  | nil => exact ordered_ofValue o v hv
  | cons k path ih => exact .table o (List.pairwise_singleton _ _) (by simpa using ih)

end Setting

/-- A layer all of whose tables have their keys in order. -/
abbrev Layer.Ordered (l : Layer) : Prop := TableOf Setting.Ordered l

theorem Layer.Ordered.overlay {below above : Layer} (hb : below.Ordered) (ha : above.Ordered) :
    (below.overlay above).Ordered := Setting.tableOf_overlayFields above ha.2 hb

namespace EnvValue

theorem collect_forall {β : Type} {p : β → Prop} {close : Char} {item : Reader β}
    (hitem : ∀ {cs a rest}, item cs = some (a, rest) → p a) (budget : List Char) {cs rest : List Char}
    {as : List β} (h : collect close item budget cs = some (as, rest)) : ∀ a ∈ as, p a := by
  induction budget generalizing cs as rest with
  | nil => simp [collect] at h
  | cons b budget ih =>
    unfold collect at h
    split at h
    · simp only [Option.some.injEq, Prod.mk.injEq] at h
      simp [← h.1]
    · split at h
      · simp at h
      · next a rest₁ ha =>
        split at h
        · next rest₂ =>
          obtain ⟨⟨as', rest₃⟩, hrec, heq⟩ := Option.map_eq_some_iff.mp h
          obtain ⟨rfl, -⟩ := Prod.mk.inj heq
          intro x hx
          rcases List.mem_cons.mp hx with rfl | hx
          · exact hitem ha
          · exact ih hrec x hx
        · split at h
          · obtain ⟨rfl, -⟩ := Prod.mk.inj (Option.some.inj h)
            simpa using hitem ha
          · simp at h
        · simp at h

theorem pair_ordered {value : Reader Value} (hvalue : ∀ {cs v rest}, value cs = some (v, rest) → v.Ordered)
    {cs rest : List Char} {q : String × Value} (h : pair value cs = some (q, rest)) : q.2.Ordered := by
  unfold pair at h
  split at h
  · simp at h
  · split at h
    · obtain ⟨⟨v, rest'⟩, hv, heq⟩ := Option.map_eq_some_iff.mp h
      obtain ⟨rfl, -⟩ := Prod.mk.inj heq
      exact hvalue hv
    · simp at h

theorem word_ordered (cs : List Char) : (word cs).Ordered := by
  refine .other fun fields => ?_
  unfold word
  split
  · simp
  · split
    · simp
    · split <;> simp

theorem core_ordered (depth : Nat) {cs rest : List Char} {v : Value} (h : core depth cs = some (v, rest)) :
    v.Ordered := by
  induction depth generalizing cs v rest with
  | zero => simp [core] at h
  | succ depth ih =>
    -- what is inside a table or a list is read one level deeper, and the gaps around it do not matter
    have hinner {cs : List Char} {v : Value} {rest : List Char}
        (h : (core depth (skipGap cs)).map (fun q => (q.1, skipGap q.2)) = some (v, rest)) :
        v.Ordered := by
      obtain ⟨⟨w, rest'⟩, hw, heq⟩ := Option.map_eq_some_iff.mp h
      obtain ⟨rfl, -⟩ := Prod.mk.inj heq
      exact ih hw
    unfold core at h
    dsimp only at h
    split_ifs at h
    · obtain ⟨rfl, -⟩ := Prod.mk.inj (Option.some.inj h)
      exact .other (by simp)
    · obtain ⟨rfl, -⟩ := Prod.mk.inj (Option.some.inj h)
      exact .other (by simp)
    · split at h
      · obtain ⟨⟨ps, rest'⟩, hps, heq⟩ := Option.map_eq_some_iff.mp h
        obtain ⟨rfl, -⟩ := Prod.mk.inj heq
        have htable := TableOf.sortKeys (collect_forall (pair_ordered hinner) _ hps)
        exact .table htable.1 htable.2
      · obtain ⟨⟨vs, rest'⟩, -, heq⟩ := Option.map_eq_some_iff.mp h
        obtain ⟨rfl, -⟩ := Prod.mk.inj heq
        exact .other (by simp)
      · obtain ⟨⟨s, rest'⟩, -, heq⟩ := Option.map_eq_some_iff.mp h
        obtain ⟨rfl, -⟩ := Prod.mk.inj heq
        exact .other (by simp)
      · split at h
        · obtain ⟨rfl, -⟩ := Prod.mk.inj (Option.some.inj h)
          exact .other (by simp)
        · simp at h
      · obtain ⟨rfl, -⟩ := Prod.mk.inj (Option.some.inj h)
        exact word_ordered _

theorem parse_ordered (cs : List Char) : (parse cs).Ordered := by
  unfold parse
  split
  · next v rest hcore =>
    split
    · exact core_ordered _ hcore
    · exact .other (by simp)
  · exact .other (by simp)

end EnvValue

theorem Layer.ordered_ofVariables (o : Origin) (vars : List (List String × String)) :
    (Layer.ofVariables o vars).Ordered := by
  unfold Layer.ofVariables
  refine List.foldlRecOn vars _ TableOf.nil fun l hl q _ => ?_
  have hnest := Setting.ordered_nest o q.1 (EnvValue.parse_ordered (trim q.2.toList))
  unfold Layer.withVariable
  cases hs : Setting.nest o q.1 (EnvValue.parse (trim q.2.toList)) with
  | given o' v => exact hl
  | table o' fields => exact hl.overlay (hs ▸ hnest).fields

end SignatureDocs
