import GraphSelect.Proofs.Query.Stages
import GraphSelect.Proofs.Row.Cells
import GraphSelect.Proofs.Schema.Built
import GraphSelect.Stream.Run
import Mathlib

/-!
# A plain select gives one row for each element

A select without clauses, stars and aggregates lists the elements of its table. Its traversal goes a
long way round for that: it groups the elements by themselves, takes the groups apart again, sorts
them by their ids and projects each group of one. The first part of this module follows the
elements through these steps. The second one shows that compiling a plain select writes just them,
with an atom for each item of the select list, and the two meet in the rows that are decoded in the
end.
-/

set_option autoImplicit false

namespace GraphSelect

open Sql

/-! ## Elements through the steps -/

/-- The elements of a table: those of its sort that carry its label. -/
def Table.elements (t : Table) (g : Graph) : List Element :=
  (match t.kind with
    | .vertex => g.vertices.map Element.vertex
    | .edge _ _ => g.edges.map Element.edge).filter fun x => x.label == t.label

/-- An element conforms to a table: what it has for the columns of the table, its id and those of
its endpoints included, is of the declared type and is not the marker. -/
def Table.Conforms (t : Table) (x : Element) : Prop :=
  ∀ c ∈ t.allColumns, ∀ v, c.source.read x = some v → v.HasType c.type ∧ v ≠ .string nullMarker

/-- No two vertices and no two edges have one id. -/
def Graph.DistinctIds (g : Graph) : Prop :=
  (g.vertices.map Vertex.id).Nodup ∧ (g.edges.map Edge.id).Nodup

section

variable {e : Engine} {g : Graph}

theorem intoBucket_fresh {key : Value} (value : Value) {acc : List (Value × List Value)}
    (h : ∀ b ∈ acc, b.1.sameKey key = false) :
    intoBucket key value acc = acc ++ [(key, [value])] := by
  induction acc with
  | nil => rfl
  | cons b rest ih =>
    rw [List.forall_mem_cons] at h
    obtain ⟨k, values⟩ := b
    rw [intoBucket, h.1]
    simp [ih h.2]

/-- Values that are all different have a bucket each. -/
theorem buckets_distinct {values : List Value}
    (h : values.Pairwise fun v w => v.sameKey w = false) :
    buckets (fun v => [v]) values = values.map fun v => (v, [v]) := by
  have hfold : ∀ (values : List Value) (acc : List (Value × List Value)),
      values.Pairwise (fun v w => v.sameKey w = false) →
      (∀ b ∈ acc, ∀ v ∈ values, b.1.sameKey v = false) →
      values.foldl (fun acc v => intoBucket v v acc) acc =
        acc ++ values.map fun v => (v, [v]) := by
    intro values
    induction values with
    | nil => simp
    | cons v rest ih =>
      intro acc hp hacc
      rw [List.pairwise_cons] at hp
      have hfresh := intoBucket_fresh v fun b hb => hacc b hb v List.mem_cons_self
      rw [List.foldl_cons, hfresh, ih _ hp.2]
      · simp
      · intro b hb w hw
        rcases List.mem_append.1 hb with hb | hb
        · exact hacc b hb w (List.mem_cons_of_mem v hw)
        · cases List.mem_singleton.1 hb
          exact hp.1 w hw
  exact hfold values [] h (by simp)

theorem elements_distinct (t : Table) (hids : g.DistinctIds) :
    ((t.elements g).map Value.element).Pairwise fun v w => v.sameKey w = false := by
  rw [List.pairwise_map]
  apply List.Pairwise.filter
  split
  · rw [List.pairwise_map]
    have h := List.pairwise_map.1 hids.1
    exact h.imp fun hne => by simpa [Value.sameKey, Element.same] using hne
  · rw [List.pairwise_map]
    have h := List.pairwise_map.1 hids.2
    exact h.imp fun hne => by simpa [Value.sameKey, Element.same] using hne

theorem flow_source (t : Table) (name : String) (values : List Value) :
    (pipeline e g (sourceSteps (t.registeredAs 0 name))).flow values =
      (t.elements g).map .element := by
  simp only [sourceSteps, Table.elements, Table.registeredAs]
  cases t.kind with
  | vertex => simp [pipeline, Step.apply, List.filter_map, Function.comp_def, Value.hasLabel]
  | edge _ _ => simp [pipeline, Step.apply, List.filter_map, Function.comp_def, Value.hasLabel]

theorem Engine.ordered_perm {modifiers : List Modifier} {values : List Value}
    (h : ∀ v ∈ values, ∀ m ∈ modifiers, (m.find v).isEmpty = false) :
    (e.ordered modifiers values).Perm values := by
  have hall : values.filter (fun v => modifiers.all fun m => !(m.find v).isEmpty) = values := by
    rw [List.filter_eq_self]
    intro v hv
    rw [List.all_eq_true]
    intro m hm
    simp [h v hv m hm]
  rw [Engine.ordered, hall]
  exact List.mergeSort_perm _ _

/-- A column is filled with its value or the marker. -/
theorem orMarker_run (a : Atom) (x : Element) :
    (orMarker (.anonymous (a.fragment .bucket))).run e g [.list [.element x]] =
      [.scalar ((a.value x).getD (.string nullMarker))] := by
  cases hv : a.value x with
  | none => simp [orMarker, pipeline, Step.apply, runEach_eq_map, Atom.flow_bucket, hv]
  | some v => simp [orMarker, pipeline, Step.apply, runEach_eq_map, Atom.flow_bucket, hv]

/-- The modifiers that fill the columns of a projection. -/
def columnModifiers (e : Engine) (g : Graph) (columns : List NamedAtom) : List Modifier :=
  columns.map fun c =>
    ⟨fun v => (orMarker (.anonymous (c.atom.fragment .bucket))).run e g [v], none⟩

theorem pipeline_itemModifiers (columns : List NamedAtom) :
    pipeline e g (itemModifiers (columns.map fun c => .atom c.atom)) =
      ⟨columnModifiers e g columns, fun values => values⟩ := by
  induction columns with
  | nil => simp [itemModifiers, columnModifiers]
  | cons c rest ih =>
    rw [itemModifiers] at ih ⊢
    rw [List.map_cons, List.map_cons, pipeline_by, ih]
    rfl

/-- The projection of a group of one element holds what is sent for it. -/
theorem projected_element (columns : List NamedAtom) (x : Element) :
    projected (columns.map NamedAtom.name) (columnModifiers e g columns) (.list [.element x]) =
      .record (columns.map fun c => (c.name, .scalar (c.sent x))) := by
  have hfields : ((columns.map NamedAtom.name).zip (columnModifiers e g columns)).filterMap
      (fun p => (p.2.find (.list [.element x])).head?.map fun found => (p.1, found)) =
        columns.map fun c => (c.name, Value.scalar (c.sent x)) := by
    induction columns with
    | nil => rfl
    | cons c rest ih =>
      rw [columnModifiers] at ih ⊢
      simp only [List.map_cons, List.zip_cons_cons, List.filterMap_cons, ih, orMarker_run]
      rfl
  rw [projected, hfields]

/-- The steps of a plain select after those that find the elements. -/
def listingSteps (columns : List NamedAtom) : List Step :=
  [.group, .unfold, .selectValues, .order, .by (.anonymous [.unfold, .id]) none,
    .project (columns.map NamedAtom.name)] ++
    itemModifiers (columns.map fun c => .atom c.atom)

/-- **Elements through the steps of a plain select.** There is one record for each of them. -/
theorem flow_listing (columns : List NamedAtom) {xs : List Element}
    (h : (xs.map Value.element).Pairwise fun v w => v.sameKey w = false) :
    ((pipeline e g (listingSteps columns)).flow (xs.map .element)).Perm
      (xs.map fun x => .record (columns.map fun c => (c.name, .scalar (c.sent x)))) := by
  have hgroups : grouped [] (xs.map .element) =
      .map (xs.map fun x => (.element x, .list [.element x])) := by
    simp [grouped, buckets_distinct h]
  have hbuckets : ([Value.map (xs.map fun x => (.element x, .list [.element x]))].flatMap
      Value.members).flatMap Value.entryValue = xs.map fun x => .list [.element x] := by
    simp only [List.flatMap_cons, List.flatMap_nil, List.append_nil, Value.members, List.map_map,
      List.flatMap_map, Function.comp_apply, Value.entryValue]
    exact List.map_eq_flatMap.symm
  have hflow : (pipeline e g (listingSteps columns)).flow (xs.map .element) =
      (e.ordered [⟨fun v => (Traversal.anonymous [.unfold, .id]).run e g [v], none⟩]
        (xs.map fun x => .list [.element x])).map
          (projected (columns.map NamedAtom.name) (columnModifiers e g columns)) := by
    simp only [listingSteps, List.cons_append, List.nil_append, pipeline, Step.apply,
      pipeline_itemModifiers, hgroups, hbuckets]
  have hperm : (e.ordered [⟨fun v => (Traversal.anonymous [.unfold, .id]).run e g [v], none⟩]
      (xs.map fun x => .list [.element x])).Perm (xs.map fun x => .list [.element x]) := by
    -- Every bucket has an element and so an id to sort by; none is dropped.
    refine Engine.ordered_perm fun v hv m hm => ?_
    obtain ⟨x, -, rfl⟩ := List.mem_map.1 hv
    cases List.mem_singleton.1 hm
    simp [pipeline, Step.apply, Value.members, Value.elementId]
  rw [hflow]
  refine (hperm.map _).trans (.of_eq ?_)
  simp only [List.map_map, Function.comp_def, projected_element]

end

/-! ## Plain selects -/

/-- A tree without aggregates, and without the marker as a literal. -/
def Sql.Node.Plain (n : Node) : Prop :=
  ∀ m : Node, m.Within n → m.isAggregate = false ∧ m ≠ .literal (.string nullMarker)

/-- A select list without stars, aggregates and the marker, and nothing else. An empty list of keys
is like no clause. -/
structure Sql.Select.Plain (s : Select) : Prop where
  filter : s.filter = none
  groupBy : keysOf s.groupBy = []
  having : s.having = none
  orderBy : keysOf s.orderBy = []
  noStar : ∀ n ∈ s.selectList, n.isStar = false
  items : ∀ n ∈ s.selectList, n.Plain

/-- An atom of a plain select: a column of the table, or a literal other than the marker. -/
def Atom.Plain (t : Table) : Atom → Prop
  | .column c => c ∈ t.allColumns
  | .constant l => l ≠ .string nullMarker

theorem Sql.Node.Plain.within {m n : Node} (h : n.Plain) (hm : m.Within n) : m.Plain :=
  fun k hk => h k (hk.trans hm)

theorem Sql.Node.Plain.operand {n : Node} {op : Operator} {operands : List Node}
    (h : (Node.call op operands).Plain) (hn : n ∈ operands) : n.Plain :=
  h.within (.of_operand hn)

@[simp] theorem Sql.Node.plain_identifier (id : Identifier) : (Node.identifier id).Plain := by
  intro m hm
  cases within_identifier.1 hm
  exact ⟨rfl, nofun⟩

@[simp] theorem Sql.Node.plain_literal {l : Literal} :
    (Node.literal l).Plain ↔ l ≠ .string nullMarker := by
  constructor
  · rintro h rfl
    exact (h _ (.refl _)).2 rfl
  · intro h m hm
    cases within_literal.1 hm
    exact ⟨rfl, fun heq => h (Node.literal.inj heq)⟩

@[simp] theorem Sql.Node.plain_call {op : Operator} {operands : List Node} :
    (Node.call op operands).Plain ↔
      (Node.call op operands).isAggregate = false ∧ ∀ n ∈ operands, n.Plain := by
  constructor
  · intro h
    exact ⟨(h _ (.refl _)).1, fun n hn => h.operand hn⟩
  · rintro ⟨hagg, hoperands⟩ m hm
    rcases within_call.1 hm with rfl | ⟨n, hn, hm⟩
    · exact ⟨hagg, nofun⟩
    · exact hoperands n hn m hm

/-- Every alias stands for a plain tree. -/
def Registry.Plain (r : Registry) : Prop :=
  r.Binds fun _ expr => expr.Plain

theorem Registry.Learns.plain {trees : List Node} {r r' : Registry}
    (h : r.Learns (NamedIn trees) r') (htrees : ∀ n ∈ trees, n.Plain) (hr : r.Plain) :
    r'.Plain := by
  refine h.binds (P := fun _ expr => expr.Plain)
    (fun hexpr hname => hexpr.within hname.expr_within) ?_ hr
  rintro _ _ ⟨n, hn, hname⟩
  exact (htrees n hn).within hname.expr_within

section

variable {r : Registry} {table : TableId} {t : Table}

/-- A plain tree means an atom, if all aliases stand for plain trees. -/
theorem Means.plain_atom {n : Node} {m : Meaning} (ht : r.schemaTable table = .ok t)
    (hr : r.Plain) (h : Means r table n m) (hn : n.Plain) :
    ∃ a, m = .atom a ∧ a.Plain t := by
  induction h with
  | column hc =>
    obtain ⟨t', ht', hc⟩ := hc
    cases ht.symm.trans ht'
    exact ⟨_, rfl, Table.mem_allColumns hc⟩
  | named ha _ ih => exact ih (hr ha.2)
  | literal l =>
    refine ⟨_, rfl, ?_⟩
    rintro rfl
    exact (hn _ (.refl _)).2 rfl
  | naming _ _ ih => exact ih (hn.operand (by simp))
  | desc _ _ ih => exact ih (hn.operand (by simp))
  | countAll hop =>
    have hagg := (hn _ (.refl _)).1
    simp [Node.isAggregate, hop] at hagg
  | star hop _ =>
    have hagg := (hn _ (.refl _)).1
    simp [Node.isAggregate, hop] at hagg
  | aggregate hop _ _ _ =>
    have hagg := (hn _ (.refl _)).1
    simp [Node.isAggregate, hop] at hagg

/-- The values of a plain atom can be sent, if the element conforms to the table. -/
theorem Atom.Plain.sendable {a : Atom} {x : Element} (h : a.Plain t) (hx : t.Conforms x)
    {v : Scalar} (hv : a.value x = some v) : v.Sendable a.type := by
  cases a with
  | column c => exact .inr (hx c h v hv)
  | constant l =>
    cases hv
    cases l with
    | null => exact .inl rfl
    | string text =>
      refine .inr ⟨trivial, fun heq => h ?_⟩
      cases heq
      rfl
    | boolean b => exact .inr ⟨trivial, nofun⟩
    | integer i => exact .inr ⟨trivial, nofun⟩
    | decimal x => exact .inr ⟨trivial, nofun⟩

theorem itemsFrom_exprs {selectList : List Node} {position : Nat} {items : List ProjectionItem}
    (hstar : ∀ n ∈ selectList, n.isStar = false)
    (h : itemsFrom r table position selectList = .ok items) :
    items.map ProjectionItem.expr = selectList := by
  induction selectList generalizing position items with
  | nil =>
    cases h
    rfl
  | cons n rest ih =>
    obtain ⟨first, hfirst, hrest₁⟩ := ok_of_bind h
    obtain ⟨more, hmore, hlast⟩ := ok_of_bind hrest₁
    cases hlast
    rw [List.forall_mem_cons] at hstar
    have hexpr : first.map ProjectionItem.expr = [n] := by
      rcases entryItems_cases hfirst with ⟨hn, -⟩ | ⟨-, name, rfl⟩
      · cases hn.symm.trans hstar.1
      · rfl
    rw [List.map_append, hexpr, ih hstar.2 hmore]
    rfl

theorem projectionItems_plain {selectList : List Node} {items : List ProjectionItem}
    (hstar : ∀ n ∈ selectList, n.isStar = false)
    (h : projectionItems r table selectList = .ok items) :
    items.map ProjectionItem.expr = selectList ∧ (items.map ProjectionItem.name).Nodup := by
  obtain ⟨hlisted, hcheck⟩ := projectionItems_ok h
  exact ⟨itemsFrom_exprs hstar hlisted, (checkNames_nodup hcheck).1⟩

/-- Items that mean plain atoms, and the columns that are recorded for them, are one list. -/
theorem exists_columns (ht : r.schemaTable table = .ok t)
    (hr : r.Plain) {items : List ProjectionItem}
    (hitems : ∀ n ∈ items.map ProjectionItem.expr, n.Plain) {meanings : List Meaning}
    {outputs : List OutputColumn}
    (hms : List.Forall₂ (fun item m => Means r table item.expr m) items meanings)
    (hout : List.Forall₂
      (fun item c => c.name = item.name ∧ columnType r table item.expr = .ok c.type)
      items outputs) :
    ∃ columns : List NamedAtom,
      items.map ProjectionItem.name = columns.map NamedAtom.name ∧
      meanings = columns.map (fun c => .atom c.atom) ∧ outputs = columns.map NamedAtom.output ∧
      List.Forall₂ (fun n c => Means r table n (.atom c.atom)) (items.map ProjectionItem.expr)
        columns ∧
      ∀ c ∈ columns, c.atom.Plain t := by
  induction items generalizing meanings outputs with
  | nil =>
    cases hms
    cases hout
    exact ⟨[], rfl, rfl, rfl, .nil, nofun⟩
  | cons item rest ih =>
    cases hms with
    | cons hm hms =>
      cases hout with
      | @cons _ c _ _ hc hout =>
        rw [List.map_cons, List.forall_mem_cons] at hitems
        obtain ⟨columns, hnames, rfl, rfl, hmeans, hplain⟩ := ih hitems.2 hms hout
        obtain ⟨a, rfl, ha⟩ := hm.plain_atom ht hr hitems.1
        have htype : c.type = a.type := hm.type_eq hc.2
        refine ⟨⟨item.name, a⟩ :: columns, by simp [hnames], rfl, ?_, .cons hm hmeans, ?_⟩
        · rw [List.map_cons]
          congr 1
          obtain ⟨name, type⟩ := c
          simp only at hc htype
          rw [NamedAtom.output, hc.1, htype]
        · rw [List.forall_mem_cons]
          exact ⟨ha, hplain⟩

end

theorem emitProjection_plain {items : List ProjectionItem} {t : Table} {d d' : Draft}
    (ht : d.registry.schemaTable 0 = .ok t) (hr : d.registry.Plain)
    (hitems : ∀ n ∈ items.map ProjectionItem.expr, n.Plain)
    (h : emitProjection 0 items d = (.ok (), d')) :
    d'.registry.hasAggregate = d.registry.hasAggregate := by
  obtain ⟨meanings, hms, hstage⟩ := emitProjection_stage h
  have ht' : d'.registry.schemaTable 0 = .ok t := hstage.learns.toGrows.schemaTable.trans ht
  have hno : meanings.any Meaning.isAggregate = false := by
    rw [List.any_eq_false]
    intro m hm
    obtain ⟨item, hitem, hmeans⟩ := exists_of_mem_forall₂ hms.flip hm
    obtain ⟨a, rfl, -⟩ := hmeans.plain_atom ht' (hstage.learns.plain hitems hr)
      (hitems _ (List.mem_map_of_mem hitem))
    simp [Meaning.isAggregate]
  rw [hstage.hasAggregate, hno, Bool.or_false]

section

variable {schema : Schema} {placement : FilterPlacement} {s : Select} {q : CompiledQuery}
  {items : List ProjectionItem} {d d' : Draft}

theorem Sql.Select.Plain.emitPlaced_eq (hs : s.Plain) {here : FilterPlacement}
    (h : emitPlaced 0 s placement here d = (.ok (), d')) : d' = d := by
  simp only [emitPlaced, hs.filter] at h
  exact (Emit.pure_ok h).2

theorem Sql.Select.Plain.emitHaving_eq (hs : s.Plain)
    (h : emitHavingClause 0 s d = (.ok (), d')) : d' = d := by
  simp only [emitHavingClause, hs.having] at h
  exact (Emit.pure_ok h).2

theorem Sql.Select.Plain.discovery (hs : s.Plain) {t : Table}
    (ht : d.registry.schemaTable 0 = .ok t) (hr : d.registry.Plain)
    (hitems : ∀ n ∈ items.map ProjectionItem.expr, n.Plain)
    (h : emitDiscovery 0 items s d = (.ok (), d')) :
    d'.registry.hasAggregate = d.registry.hasAggregate := by
  obtain ⟨_, d₁, h₁, hrest⟩ := Emit.bind_ok h
  obtain ⟨_, d₂, h₂, hlast⟩ := Emit.bind_ok hrest
  cases hs.emitHaving_eq h₂
  rw [hs.orderBy] at hlast
  have horder : Stage (NamedIn []) _ false d₁ d' := emitOrderBy_nil hlast
  rw [horder.hasAggregate, Bool.or_false, emitProjection_plain ht hr hitems h₁]

/-- The stages of a plain select: a bucket for each element, sorted by id, and the projection. -/
theorem Sql.Select.Plain.stages (hs : s.Plain) (hagg : d.registry.hasAggregate = false)
    (h : emitStages 0 items s placement d = (.ok (), d')) :
    ∃ meanings outputs r,
      List.Forall₂ (fun item m => Means r 0 item.expr m) items meanings ∧
      outputsOf r 0 items = .ok outputs ∧ d'.registry.outputs = [(0, outputs)] ∧
      d.registry.Learns (NamedIn (items.map ProjectionItem.expr)) r ∧
      r.Learns (NamedIn (items.map ProjectionItem.expr)) d'.registry ∧
      d'.steps = d.steps ++ ([.group, .unfold, .selectValues, .order,
        .by (.anonymous [.unfold, .id]) none, .project (items.map ProjectionItem.name)] ++
        itemModifiers meanings) := by
  obtain ⟨drafts⟩ := emitStages_drafts h
  have hfiltered := hs.emitPlaced_eq drafts.placedFirst
  have hkept := hs.emitHaving_eq drafts.having
  have hkeptAgain := hs.emitPlaced_eq drafts.placedLast
  have hgroup := drafts.groups
  rw [hs.groupBy, hfiltered] at hgroup
  have horder := drafts.orders
  rw [hs.orderBy] at horder
  have hproject := drafts.projects
  rw [hkeptAgain, hkept] at hproject
  obtain ⟨meanings, hms, hprojection⟩ := emitProjection_stage hproject
  obtain ⟨outputs, hout, hrecorded, hrecord⟩ := recordProjection_stage drafts.records
  have hvalues : Stage (NamedIn (items.map ProjectionItem.expr)) [.selectValues] false
      drafts.grouped ⟨drafts.grouped.registry, drafts.grouped.steps ++ [.selectValues]⟩ :=
    .append rfl
  have hstages := (((emitGroupBy_nil hgroup).trans hvalues).trans (emitOrderBy_nil horder)).trans
    hprojection
  refine ⟨meanings, outputs, drafts.projected.registry, hms, hout, hrecorded, hstages.learns,
    hrecord.learns, ?_⟩
  rw [hrecord.steps, hstages.steps, hagg]
  simp

/-- **A plain select compiles to the listing of its columns.** -/
theorem Sql.Select.Plain.compiled (hs : s.Plain) (h : compile schema placement s = .ok q) :
    ∃ source t columns, SourceTable.ofClause s.source = .ok source ∧
      schema.table? source.label = some t ∧
      (∃ name, q.traversal = .root (sourceSteps (t.registeredAs 0 name) ++ listingSteps columns)) ∧
      q.columns = columns.map NamedAtom.output ∧ (columns.map NamedAtom.name).Nodup ∧
      List.Forall₂ (fun n c => Means q.registry 0 n (.atom c.atom)) s.selectList columns ∧
      (∀ c ∈ columns, c.atom.Plain t) ∧ q.registry.Binds (NamedIn s.selectList) := by
  obtain ⟨run⟩ := compile_run h
  obtain ⟨hexprs, hnodup⟩ := projectionItems_plain hs.noStar run.lists
  have hitems : ∀ n ∈ run.items.map ProjectionItem.expr, n.Plain := hexprs ▸ hs.items
  have ht := schemaTable_reading run.source.name run.found
  obtain ⟨_, _, hdiscovered⟩ := emitDiscovery_stage run.discovers
  have htrees : s.trees run.items = run.items.map ProjectionItem.expr := by
    simp [Select.trees, hs.filter, hs.groupBy, hs.having, hs.orderBy]
  rw [htrees] at hdiscovered
  have hr : (Registry.reading schema run.table run.source.name).Plain :=
    binds_reading (P := fun _ expr => expr.Plain)
  have hagg : run.discovered.registry.hasAggregate = false :=
    hs.discovery ht hr hitems run.discovers
  -- The registry that is found first is the one that the stages start from.
  obtain ⟨meanings, outputs, r, hms, hout, hrecorded, hlearns, hrecord, hsteps⟩ :=
    hs.stages (by exact hagg) run.emits
  have hbefore := hdiscovered.learns.trans hlearns
  obtain ⟨columns, hnames, rfl, rfl, hmeans, hplain⟩ :=
    exists_columns (hbefore.toGrows.schemaTable.trans ht) (hbefore.plain hitems hr)
      hitems hms (outputsOf_ok hout)
  rw [hexprs] at hmeans
  refine ⟨run.source, run.table, columns, run.reads, run.found,
    ⟨run.source.name, ?_⟩, ?_, hnames ▸ hnodup,
    hmeans.imp fun _ _ hm => hm.grow (run.registry ▸ hrecord.toGrows), hplain, ?_⟩
  · rw [run.traversal, hsteps, hnames]
    rfl
  · have hreturns := run.returns
    rw [Registry.outputColumns, hrecorded] at hreturns
    exact (Except.ok.inj hreturns).symm
  · rw [run.registry, ← hexprs]
    exact (hbefore.trans hrecord).binds_namedIn binds_reading

/-- A result of a query is sent as JSON and decoded as a row. -/
def CompiledQuery.Delivers (q : CompiledQuery) (v : Value) (row : Row) : Prop :=
  ∃ raw, v.raw? = some raw ∧ raw.WellFormed ∧ q.decoder.decode raw = .ok row

theorem raw?_record (columns : List NamedAtom) (x : Element) :
    Value.raw? (.record (columns.map fun c => (c.name, .scalar (c.sent x)))) =
      some (.obj (sentFields x columns)) := by
  have hfields : (columns.map fun c => (c.name, Value.scalar (c.sent x))).mapM
      (fun f => (Value.scalar? f.2).map fun v => (f.1, v.serialized)) =
        some (sentFields x columns) := by
    induction columns with
    | nil => rfl
    | cons c rest ih =>
      rw [List.map_cons, List.mapM_cons, ih]
      rfl
  rw [Value.raw?, hfields]
  rfl

theorem delivers_record {columns : List NamedAtom} {t : Table} {x : Element}
    (hcolumns : q.columns = columns.map NamedAtom.output)
    (hnames : (columns.map NamedAtom.name).Nodup) (hplain : ∀ c ∈ columns, c.atom.Plain t)
    (hx : t.Conforms x) :
    q.Delivers (.record (columns.map fun c => (c.name, .scalar (c.sent x)))) (rowOf columns x) := by
  refine ⟨_, raw?_record columns x, sentFields_wellFormed hnames, ?_⟩
  have hdecoder : q.decoder =
      ⟨columns.map NamedAtom.name, columns.map fun c => c.atom.type⟩ := by
    simp [CompiledQuery.decoder, CompiledQuery.columnNames, hcolumns, NamedAtom.output]
  rw [hdecoder]
  exact decode_sentFields hnames fun c hc v hv => (hplain c hc).sendable hx hv

/-- **The rows of a plain select.** Whatever elements there are, as long as they have ids of their
own and conform to the table, every result of the traversal is decoded, and the rows are one for
each element of the table in some order. A cell holds the value of its item on the element, as far
as JSON can carry it, and null where there is none; the aliases that the items use are named in the
select list. -/
theorem plain_select_rows (hs : s.Plain) (h : compile schema placement s = .ok q) :
    ∃ source t atoms, SourceTable.ofClause s.source = .ok source ∧
      schema.table? source.label = some t ∧
      List.Forall₂ (fun n a => Means q.registry 0 n (.atom a)) s.selectList atoms ∧
      q.registry.Binds (NamedIn s.selectList) ∧
      ∀ (e : Engine) (g : Graph), g.DistinctIds → (∀ x ∈ t.elements g, t.Conforms x) →
        ∃ rows, List.Forall₂ q.Delivers (q.traversal.results e g) rows ∧
          rows.Perm ((t.elements g).map fun x =>
            ⟨q.columnNames, atoms.map fun a => ((a.value x).getD .null).carried⟩) := by
  obtain ⟨source, t, columns, hsource, ht, ⟨name, htraversal⟩, hcolumns, hnames, hmeans, hplain,
    hbinds⟩ := hs.compiled h
  refine ⟨source, t, columns.map NamedAtom.atom, hsource, ht, ?_, hbinds, ?_⟩
  · rw [List.forall₂_map_right_iff]
    exact hmeans
  · intro e g hids hconforms
    have hresults : (q.traversal.results e g).Perm ((t.elements g).map fun x =>
        .record (columns.map fun c => (c.name, .scalar (c.sent x)))) := by
      have hlisting : (pipeline e g (listingSteps columns)).modifiers = [] := by
        simp [listingSteps, pipeline]
      rw [htraversal, Traversal.results, Traversal.run_root, pipeline_append hlisting]
      simp only [flow_source]
      exact flow_listing columns (elements_distinct t hids)
    have hrows : List.Forall₂ q.Delivers
        ((t.elements g).map fun x => .record (columns.map fun c => (c.name, .scalar (c.sent x))))
        ((t.elements g).map (rowOf columns)) := by
      rw [List.forall₂_map_left_iff, List.forall₂_map_right_iff, List.forall₂_same]
      exact fun x hx => delivers_record hcolumns hnames hplain (hconforms x hx)
    -- The results come sorted by id; the rows follow them.
    obtain ⟨rows, hdelivers, hperm⟩ := List.perm_comp_forall₂ hresults hrows
    refine ⟨rows, hdelivers, hperm.trans (.of_eq ?_)⟩
    simp [rowOf, CompiledQuery.columnNames, hcolumns, NamedAtom.output, NamedAtom.cell,
      Function.comp_def]

end

def personTable : Table :=
  ⟨"person", .vertex, .string, [⟨"name", .string⟩, ⟨"age", .integer⟩], none⟩

/-- `SELECT p.name AS called, called AS again, 'staff' AS sort, age FROM person AS p`. -/
def namesAndAges : Select where
  selectList := [.as (.identifier ⟨["p", "name"]⟩) "called", .as (.identifier ⟨["called"]⟩) "again",
    .as (.string "staff") "sort", .identifier ⟨["age"]⟩]
  source := some (.as (.identifier ⟨["person"]⟩) "p")
  filter := none
  groupBy := none
  having := none
  orderBy := none

/-- Two people, one of them of unknown age, and a robot. -/
def peopleAndRobot : Graph where
  vertices := [⟨.string "1", "person", [("name", .string "Ada"), ("age", .long 36)]⟩,
    ⟨.string "2", "person", [("name", .string "Bob")]⟩, ⟨.string "3", "robot", []⟩]
  edges := []

theorem namesAndAges_plain : namesAndAges.Plain := by
  refine ⟨rfl, rfl, rfl, rfl, ?_, ?_⟩
  · simp [namesAndAges, Node.as, Node.apply, Node.isStar, Identifier.isStar, Identifier.simpleName]
  · intro n hn
    simp only [namesAndAges, List.mem_cons, List.not_mem_nil, or_false] at hn
    rcases hn with rfl | rfl | rfl | rfl
    · exact Node.plain_call.2 ⟨rfl, by simp [Node.ident]⟩
    · exact Node.plain_call.2 ⟨rfl, by simp [Node.ident]⟩
    · exact Node.plain_call.2 ⟨rfl, by simp [Node.ident, Node.string, nullMarker]⟩
    · exact Node.plain_identifier _

theorem people_eq : personTable.elements peopleAndRobot =
    [.vertex ⟨.string "1", "person", [("name", .string "Ada"), ("age", .long 36)]⟩,
      .vertex ⟨.string "2", "person", [("name", .string "Bob")]⟩] := by
  decide

theorem peopleAndRobot_conforms :
    ∀ x ∈ personTable.elements peopleAndRobot, personTable.Conforms x := by
  have hcolumns : personTable.allColumns = [⟨"person_ID", .string, .id⟩,
      ⟨"name", .string, .property "name"⟩, ⟨"age", .integer, .property "age"⟩] := by decide
  simp [people_eq, Table.Conforms, hcolumns, ColumnSource.read, Element.id, Element.property?,
    List.lookup, Scalar.HasType, nullMarker]

/-- The name twice, a constant, and the age. -/
def namesAndAgesAtoms : List Atom :=
  [.column ⟨"name", .string, .property "name"⟩, .column ⟨"name", .string, .property "name"⟩,
    .constant (.string "staff"), .column ⟨"age", .integer, .property "age"⟩]

theorem namesAndAges_means {r : Registry} (ht : r.schemaTable 0 = .ok personTable)
    (hb : r.binding? "called" = some (.identifier ⟨["p", "name"]⟩)) :
    List.Forall₂ (fun n a => Means r 0 n (.atom a)) namesAndAges.selectList namesAndAgesAtoms := by
  have hname : Means r 0 (.identifier ⟨["p", "name"]⟩)
      (.atom (.column ⟨"name", .string, .property "name"⟩)) := .column ⟨personTable, ht, by decide⟩
  have hcalled : Means r 0 (.identifier ⟨["called"]⟩)
      (.atom (.column ⟨"name", .string, .property "name"⟩)) :=
    .named ⟨⟨personTable, ht, by decide⟩, hb⟩ hname
  have hage : Means r 0 (.identifier ⟨["age"]⟩)
      (.atom (.column ⟨"age", .integer, .property "age"⟩)) := .column ⟨personTable, ht, by decide⟩
  exact .cons (.naming rfl hname) (.cons (.naming rfl hcalled)
    (.cons (.naming rfl (.literal _)) (.cons hage .nil)))

/-- Ada has an age and Bob has none. The robot is not listed. -/
theorem plain_select_rows_namesAndAges :
    namesAndAges.Plain ∧ peopleAndRobot.DistinctIds ∧
    (∀ x ∈ personTable.elements peopleAndRobot, personTable.Conforms x) ∧
    ∃ q, compile ⟨[personTable]⟩ .beforeGrouping namesAndAges = .ok q ∧
      ∃ rows, List.Forall₂ q.Delivers (q.traversal.results .plain peopleAndRobot) rows ∧
        rows.Perm
          [⟨["called", "again", "sort", "age"],
            [.string "Ada", .string "Ada", .string "staff", .long 36]⟩,
          ⟨["called", "again", "sort", "age"],
            [.string "Bob", .string "Bob", .string "staff", .null]⟩] := by
  have hids : peopleAndRobot.DistinctIds := by simp [Graph.DistinctIds, peopleAndRobot]
  have hcompiled : (compile ⟨[personTable]⟩ .beforeGrouping namesAndAges).map
      (fun q => (q.columnNames, q.registry.schemaTable 0, q.registry.binding? "called")) =
        .ok (["called", "again", "sort", "age"], .ok personTable,
          some (.identifier ⟨["p", "name"]⟩)) := by cbv
  cases hq : compile ⟨[personTable]⟩ .beforeGrouping namesAndAges with
  | error err => simp [hq, Except.map] at hcompiled
  | ok q =>
    simp only [hq, Except.map, Except.ok.injEq, Prod.mk.injEq] at hcompiled
    obtain ⟨hnames, htable, hbound⟩ := hcompiled
    obtain ⟨source, t, atoms, hsource, ht, hmeans, -, hrows⟩ :=
      plain_select_rows namesAndAges_plain hq
    cases hsource
    cases ht
    -- What the items mean is settled by the registry, so these are the atoms of the rows.
    have hatoms : atoms = namesAndAgesAtoms :=
      List.right_unique_forall₂' (fun _ _ _ h h' => Meaning.atom.inj (h.unique h')) hmeans
        (namesAndAges_means htable hbound)
    obtain ⟨rows, hdelivers, hperm⟩ := hrows .plain peopleAndRobot hids peopleAndRobot_conforms
    refine ⟨namesAndAges_plain, hids, peopleAndRobot_conforms, q, rfl, rows, hdelivers, ?_⟩
    rw [hatoms, hnames, people_eq] at hperm
    exact hperm

end GraphSelect
