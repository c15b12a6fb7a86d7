import SignatureDocs.Proofs.Settings.Ordered

/-!
The tables of a TOML file have their keys in order. Every line of a file keeps the tables that are finished and the
one that is open in order, so the table of the whole file is.
-/
namespace SignatureDocs.Toml

/-- All tables of a node have their keys in order. -/
inductive Node.Ordered : Node → Prop
  | value {v : Value} (h : v.Ordered) : Ordered (.value v)
  | table {items : List (String × Node)} (implicit dotted : Bool) (keys : KeysOrdered items)
    (nodes : ∀ q ∈ items, Ordered q.2) : Ordered (.table implicit dotted items)
  | tables {rows : List (List (String × Node))} (keys : ∀ row ∈ rows, KeysOrdered row)
    (nodes : ∀ row ∈ rows, ∀ q ∈ row, Ordered q.2) : Ordered (.tables rows)

theorem Node.Ordered.items {implicit dotted : Bool} {items : List (String × Node)}
    (h : (Node.table implicit dotted items).Ordered) : TableOf Node.Ordered items := by
  cases h with
  | table _ _ keys nodes => exact ⟨keys, nodes⟩

theorem Node.Ordered.row {rows : List (List (String × Node))} (h : (Node.tables rows).Ordered)
    {row : List (String × Node)} (hrow : row ∈ rows) : TableOf Node.Ordered row := by
  cases h with
  | tables keys nodes => exact ⟨keys row hrow, nodes row hrow⟩

theorem Node.ordered_tables {rows : List (List (String × Node))}
    (h : ∀ row ∈ rows, TableOf Node.Ordered row) : (Node.tables rows).Ordered :=
  .tables (fun row hrow => (h row hrow).1) fun row hrow => (h row hrow).2

namespace Table

/-- All tables in a table have their keys in order, as the table itself has. -/
abbrev Ordered (t : Table) : Prop := TableOf Node.Ordered t.items

theorem Ordered.toNode {t : Table} (h : t.Ordered) : t.toNode.Ordered := .table _ _ h.1 h.2

theorem Ordered.put {t : Table} (h : t.Ordered) {n : Node} (hn : n.Ordered) (key : String) :
    (t.put key n).Ordered := h.putKey hn key

theorem Ordered.get {t : Table} (h : t.Ordered) {key : String} {n : Node} (hn : t.get? key = some n) :
    n.Ordered := h.of_lookup hn

theorem ordered_opened_nil : (opened []).Ordered := TableOf.nil

/-- What keeps one table in order keeps all in order from the path on which it is reached. -/
theorem Ordered.descend {f : Table → Option Table} (hf : ∀ {t t'}, t.Ordered → f t = some t' → t'.Ordered)
    {dotted : Bool} {path : List String} {t t' : Table} (h : t.Ordered)
    (hd : Table.descend dotted f path t = some t') : t'.Ordered := by
  induction path generalizing t t' with
  | nil => exact hf h hd
  | cons k path ih =>
    -- the key is new, or has a value, rows of tables or a table
    unfold Table.descend at hd
    split at hd
    · obtain ⟨c, hc, rfl⟩ := Option.map_eq_some_iff.mp hd
      exact h.put (ih TableOf.nil hc).toNode k
    · simp at hd
    · next rows hget =>
      have hrows := h.get hget
      split at hd
      · simp at hd
      · next last before hrev =>
        -- a path goes on in the last row, and the rows before it stay
        have hsplit : rows = before.reverse ++ [last] := by
          rw [← List.reverse_reverse rows, hrev, List.reverse_cons]
        obtain ⟨c, hc, rfl⟩ := Option.map_eq_some_iff.mp hd
        have hlast : last ∈ rows := by simp [hsplit]
        refine h.put (Node.ordered_tables fun row hrow => ?_) k
        rcases List.mem_append.mp hrow with hrow | hrow
        · exact hrows.row (by rw [hsplit]; exact List.mem_append_left _ hrow)
        · rw [List.mem_singleton.mp hrow]
          exact ih (hrows.row hlast) hc
    · next implicit d items hget =>
      split at hd
      · simp at hd
      · obtain ⟨c, hc, rfl⟩ := Option.map_eq_some_iff.mp hd
        have hitems : (Table.mk implicit d items).Ordered := (h.get hget).items
        exact h.put (ih hitems hc).toNode k

theorem Ordered.assign {t t' : Table} {path : List String} {v : Value} (h : t.Ordered) (hv : v.Ordered)
    (ha : Table.assign path v t = some t') : t'.Ordered := by
  unfold Table.assign at ha
  split at ha
  · simp at ha
  · next last above _ =>
    refine h.descend (fun {u u'} hu heq => ?_) ha
    split at heq
    · simp at heq
    · rw [← Option.some.inj heq]
      exact hu.put (.value hv) last

end Table

theorem map_fst_fieldValues (items : List (String × Node)) :
    (fieldValues items).map Prod.fst = items.map Prod.fst := by
  induction items with
  | nil => rfl
  | cons q rest ih => simp [fieldValues, ih]

mutual

theorem ordered_toValue : (n : Node) → n.Ordered → n.toValue.Ordered
  | .value v, h => by
    cases h with
    | value h => exact h
  | .table _ _ items, h => by
    have hvalues := tableOf_fieldValues items h.items.2 h.items.1
    exact .table hvalues.1 hvalues.2
  | .tables rows, _ => .other (by simp [Node.toValue])

theorem tableOf_fieldValues : (items : List (String × Node)) → (∀ q ∈ items, q.2.Ordered) →
    KeysOrdered items → TableOf Value.Ordered (fieldValues items)
  | [], _, _ => .nil
  | (k, n) :: rest, h, keys => by
    have hrest := tableOf_fieldValues rest (fun q hq => h q (List.mem_cons_of_mem _ hq)) keys.tail
    refine ⟨?_, fun q hq => ?_⟩
    · rw [KeysOrdered, map_fst_fieldValues]
      exact keys
    · rcases List.mem_cons.mp hq with rfl | hq
      · exact ordered_toValue n (h (k, n) (by simp))
      · exact hrest.2 q hq

end

theorem pair_ordered {value : Reader Value} (hvalue : ∀ {cs v rest}, value cs = some (v, rest) → v.Ordered)
    {cs rest : List Char} {q : List String × Value} (h : pair value cs = some (q, rest)) : q.2.Ordered := by
  unfold pair at h
  split at h
  · obtain ⟨⟨v, rest'⟩, hv, heq⟩ := Option.map_eq_some_iff.mp h
    obtain ⟨rfl, -⟩ := Prod.mk.inj heq
    exact hvalue hv
  · simp at h

theorem pairs_ordered {value : Reader Value} (hvalue : ∀ {cs v rest}, value cs = some (v, rest) → v.Ordered)
    (budget : List Char) {cs rest : List Char} {ps : List (List String × Value)}
    (h : pairs value budget cs = some (ps, rest)) : ∀ q ∈ ps, q.2.Ordered := by
  induction budget generalizing cs ps rest with
  | nil => simp [pairs] at h
  | cons b budget ih =>
    unfold pairs at h
    split at h
    · simp at h
    · next p rest₁ hp =>
      split at h
      · obtain ⟨⟨ps', rest₂⟩, hrec, heq⟩ := Option.map_eq_some_iff.mp h
        obtain ⟨rfl, -⟩ := Prod.mk.inj heq
        intro q hq
        rcases List.mem_cons.mp hq with rfl | hq
        · exact pair_ordered hvalue hp
        · exact ih hrec q hq
      · obtain ⟨rfl, -⟩ := Prod.mk.inj (Option.some.inj h)
        simpa using pair_ordered hvalue hp
      · simp at h

theorem inlineTable?_ordered {ps : List (List String × Value)} (hps : ∀ q ∈ ps, q.2.Ordered) {v : Value}
    (h : inlineTable? ps = some v) : v.Ordered := by
  obtain ⟨t, ht, rfl⟩ := Option.map_eq_some_iff.mp h
  suffices hall : ∀ (ps : List (List String × Value)) (t₀ t : Table), (∀ q ∈ ps, q.2.Ordered) →
      t₀.Ordered → ps.foldlM (fun t (ks, v) => Table.assign ks v t) t₀ = some t → t.Ordered from
    ordered_toValue _ (hall ps _ t hps Table.ordered_opened_nil ht).toNode
  intro ps
  induction ps with
  | nil =>
    intro t₀ t _ h₀ heq
    exact Option.some.inj heq ▸ h₀
  | cons q ps ih =>
    intro t₀ t hps h₀ heq
    obtain ⟨t₁, h₁, hrest⟩ := Option.bind_eq_some_iff.mp heq
    exact ih t₁ t (fun q hq => hps q (List.mem_cons_of_mem _ hq)) (h₀.assign (hps q (by simp)) h₁) hrest

theorem scalar?_ordered {cs : List Char} {v : Value} (h : scalar? cs = some v) : v.Ordered := by
  unfold scalar? at h
  split at h
  · exact Option.some.inj h ▸ .other (by simp)
  · split at h
    · exact Option.some.inj h ▸ .other (by simp)
    · split at h
      · exact Option.some.inj h ▸ .other (by simp)
      · split at h
        · exact Option.some.inj h ▸ .other (by simp)
        · split at h
          · rw [← Option.some.inj h]
            exact .table (List.pairwise_singleton _ _) (by simpa using .other (by simp))
          · simp at h

theorem simpleValue_ordered {cs rest : List Char} {v : Value} (h : simpleValue cs = some (v, rest)) :
    v.Ordered := by
  unfold simpleValue at h
  split at h
  · obtain ⟨p, -, heq⟩ := Option.map_eq_some_iff.mp h
    obtain ⟨rfl, -⟩ := Prod.mk.inj heq
    exact .other (by simp)
  · obtain ⟨p, -, heq⟩ := Option.map_eq_some_iff.mp h
    obtain ⟨rfl, -⟩ := Prod.mk.inj heq
    exact .other (by simp)
  · obtain ⟨w, hw, heq⟩ := Option.map_eq_some_iff.mp h
    obtain ⟨rfl, -⟩ := Prod.mk.inj heq
    exact scalar?_ordered hw

theorem value_ordered (depth : Nat) {cs rest : List Char} {v : Value} (h : value depth cs = some (v, rest)) :
    v.Ordered := by
  induction depth generalizing cs v rest with
  | zero => exact simpleValue_ordered h
  | succ depth ih =>
    unfold value at h
    split at h
    · obtain ⟨p, -, heq⟩ := Option.map_eq_some_iff.mp h
      obtain ⟨rfl, -⟩ := Prod.mk.inj heq
      exact .other (by simp)
    · split at h
      · obtain ⟨rfl, -⟩ := Prod.mk.inj (Option.some.inj h)
        exact .table List.Pairwise.nil (by simp)
      · obtain ⟨⟨ps, rest'⟩, hps, htable⟩ := Option.bind_eq_some_iff.mp h
        obtain ⟨w, hw, heq⟩ := Option.map_eq_some_iff.mp htable
        obtain ⟨rfl, -⟩ := Prod.mk.inj heq
        exact inlineTable?_ordered (pairs_ordered ih _ hps) hw
    · exact simpleValue_ordered h

/-- The value that a line gives is in order. -/
def Line.Ordered : Line → Prop
  | .assignment _ v => v.Ordered
  | .header _ | .row _ => True

theorem line_ordered {cs rest : List Char} {l : Line} (h : line cs = some (l, rest)) : l.Ordered := by
  unfold line at h
  split at h
  · split at h
    · obtain ⟨rfl, -⟩ := Prod.mk.inj (Option.some.inj h)
      trivial
    · simp at h
  · split at h
    · obtain ⟨rfl, -⟩ := Prod.mk.inj (Option.some.inj h)
      trivial
    · simp at h
  · obtain ⟨⟨⟨ks, v⟩, rest'⟩, hp, heq⟩ := Option.map_eq_some_iff.mp h
    obtain ⟨rfl, -⟩ := Prod.mk.inj heq
    exact pair_ordered (value_ordered _) hp

theorem lines_ordered (budget : List Char) {cs : List Char} {ls : List Line} (h : lines budget cs = some ls) :
    ∀ l ∈ ls, l.Ordered := by
  induction budget generalizing cs ls with
  | nil => simp [lines] at h
  | cons b budget ih =>
    unfold lines at h
    split at h
    · simp [← Option.some.inj h]
    · split at h
      · simp at h
      · next l rest hl =>
        split at h
        · simp at h
        · obtain ⟨ls', hrec, rfl⟩ := Option.map_eq_some_iff.mp h
          intro x hx
          rcases List.mem_cons.mp hx with rfl | hx
          · exact line_ordered hl
          · exact ih hrec x hx

namespace State

/-- The finished tables and the open one are in order. -/
structure Ordered (s : State) : Prop where
  root : s.root.Ordered
  current : s.current.Ordered

theorem Ordered.close {s : State} {t : Table} (h : s.Ordered) (hc : s.close = some t) : t.Ordered := by
  unfold State.close at hc
  split at hc
  · exact Option.some.inj hc ▸ h.current
  · next last above _ =>
    refine h.root.descend (fun {u u'} hu heq => ?_) hc
    split at heq
    · rw [← Option.some.inj heq]
      refine hu.put ?_ last
      split_ifs
      · exact Node.ordered_tables (by simpa using h.current)
      · exact h.current.toNode
    · next rows hget =>
      split_ifs at heq
      rw [← Option.some.inj heq]
      refine hu.put (Node.ordered_tables fun row hrow => ?_) last
      rcases List.mem_append.mp hrow with hrow | hrow
      · exact (hu.get hget).row hrow
      · rw [List.mem_singleton.mp hrow]
        exact h.current
    · split_ifs at heq
      rw [← Option.some.inj heq]
      exact hu.put h.current.toNode last
    · simp at heq

theorem itemsAt_ordered {t : Table} (h : t.Ordered) (path : List String) :
    TableOf Node.Ordered (openTable.itemsAt t path) := by
  induction path generalizing t with
  | nil => exact h
  | cons k path ih =>
    unfold openTable.itemsAt
    split
    · next implicit d items hget => exact ih (h.get hget).items
    · next rows hget =>
      apply ih
      cases hlast : rows.getLast? with
      | none => exact TableOf.nil
      | some row => exact (h.get hget).row (List.mem_of_getLast? hlast)
    · exact TableOf.nil

theorem ordered_openTable {path : List String} {root : Table} {s : State} (h : root.Ordered)
    (hs : openTable path root = some s) : s.Ordered := by
  unfold openTable at hs
  split at hs
  · simp at hs
  · next last above _ =>
    obtain ⟨root', hroot, rfl⟩ := Option.map_eq_some_iff.mp hs
    refine ⟨h.descend (fun {u u'} hu heq => ?_) hroot, itemsAt_ordered h path⟩
    split at heq
    · exact Option.some.inj heq ▸ hu
    · rw [← Option.some.inj heq]
      exact ⟨hu.1.sublist List.filter_sublist, fun q hq => hu.2 q (List.mem_of_mem_filter hq)⟩
    · simp at heq

theorem ordered_openRow {path : List String} {root : Table} {s : State} (h : root.Ordered)
    (hs : openRow path root = some s) : s.Ordered := by
  unfold openRow at hs
  split at hs
  · simp at hs
  · next last above _ =>
    obtain ⟨root', hroot, rfl⟩ := Option.map_eq_some_iff.mp hs
    refine ⟨h.descend (fun {u u'} hu heq => ?_) hroot, Table.ordered_opened_nil⟩
    split at heq
    · exact Option.some.inj heq ▸ hu.put (Node.ordered_tables (by simp)) last
    · exact Option.some.inj heq ▸ hu
    · simp at heq

/-- One line keeps all tables in order. -/
theorem Ordered.next {s s' : State} {l : Line} (h : s.Ordered) (hl : l.Ordered) (hn : s.next l = some s') :
    s'.Ordered := by
  cases l with
  | assignment path v =>
    obtain ⟨t, ht, rfl⟩ := Option.map_eq_some_iff.mp hn
    exact ⟨h.root, h.current.assign hl ht⟩
  | header path =>
    obtain ⟨t, ht, hs⟩ := Option.bind_eq_some_iff.mp hn
    exact ordered_openTable (h.close ht) hs
  | row path =>
    obtain ⟨t, ht, hs⟩ := Option.bind_eq_some_iff.mp hn
    exact ordered_openRow (h.close ht) hs

/-- All lines of a file keep the tables in order. -/
theorem Ordered.foldlM_next {ls : List Line} {s s' : State} (h : s.Ordered) (hls : ∀ l ∈ ls, l.Ordered)
    (hn : ls.foldlM State.next s = some s') : s'.Ordered := by
  induction ls generalizing s with
  | nil => exact Option.some.inj hn ▸ h
  | cons l ls ih =>
    obtain ⟨s₁, h₁, hrest⟩ := Option.bind_eq_some_iff.mp hn
    exact ih (h.next (hls l (by simp)) h₁) (fun l hl => hls l (List.mem_cons_of_mem _ hl)) hrest

end State

/-- The table of a file has its keys in order, and so have the tables in it. -/
theorem parse?_ordered {cs : List Char} {fields : List (String × Value)} (h : parse? cs = some fields) :
    TableOf Value.Ordered fields := by
  obtain ⟨ls, hls, h⟩ := Option.bind_eq_some_iff.mp h
  obtain ⟨s, hs, h⟩ := Option.bind_eq_some_iff.mp h
  obtain ⟨t, ht, rfl⟩ := Option.map_eq_some_iff.mp h
  have hstart : State.start.Ordered := ⟨TableOf.nil, TableOf.nil⟩
  have hordered := (hstart.foldlM_next (lines_ordered _ hls) hs).close ht
  exact tableOf_fieldValues _ hordered.2 hordered.1

end SignatureDocs.Toml
