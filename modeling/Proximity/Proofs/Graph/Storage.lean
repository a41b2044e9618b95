import Proximity.Proofs.Graph.Contents
import Proximity.Proofs.Records
import Proximity.Proofs.Store.View

set_option relaxedAutoImplicit false
set_option autoImplicit false

/-!
# Graphs in the store

A snapshot holds a graph if the look-ups of its records give the header, the nodes and the
containers of the graph. Opening the graph of a field then gives what the snapshot holds, and
writing an opened graph back into a transaction makes the transaction hold what the graph shows.
Nothing else changes in the transaction.

## Main definitions

* `Proximity.Snapshot.Holds` — the records of a field, as a graph.
* `Proximity.GraphContents.Fits` — all records can be stored.
* `Proximity.FieldGraph.Flushed` — what writing back has done to a transaction.

## Main results

* `Proximity.FieldGraph.exists_load` — opening a graph.
* `Proximity.FieldGraph.exists_flush` — writing a graph back.
* `Proximity.Snapshot.Holds.congr` — a graph depends on the records of its field only.
-/

namespace Proximity

open MessagePack

/-- **A snapshot holds a graph** in the records of a field. -/
structure Snapshot.Holds (view : Snapshot) (name : String) (contents : GraphContents) : Prop where
  header : GraphHeader.find view name = .ok contents.header
  node : ∀ id, (view.get? (RecordKey.node name id).bytes).map decode =
    (contents.node id).map (Except.ok : NodeRecord → Except IndexError NodeRecord)
  container : ∀ page, (view.get? (RecordKey.container name page).bytes).map
    (Container.ofStored view page) = (contents.container page).map .ok

/-- A snapshot holds one graph at most in the records of a field. -/
lemma Snapshot.Holds.unique {view : Snapshot} {name : String} {contents contents' : GraphContents}
    (h : view.Holds name contents) (h' : view.Holds name contents') : contents' = contents := by
  have hinj : ∀ {α : Type}, Function.Injective (Except.ok : α → Except IndexError α) :=
    @fun _ _ _ hab => Except.ok.inj hab
  have hheader : contents'.header = contents.header :=
    Except.ok.inj (h'.header.symm.trans h.header)
  have hnode : contents'.node = contents.node :=
    funext fun id => Option.map_injective hinj ((h'.node id).symm.trans (h.node id))
  have hcontainer : contents'.container = contents.container :=
    funext fun page => Option.map_injective hinj ((h'.container page).symm.trans (h.container page))
  rw [← show GraphContents.mk contents'.header contents'.node contents'.container = contents' from
    rfl, hheader, hnode, hcontainer]

/-- A graph depends on the records of its field and on the runs of its containers only. -/
theorem Snapshot.Holds.congr {view next : Snapshot} {name : String} {contents : GraphContents}
    (h : view.Holds name contents)
    (hget : ∀ key : RecordKey, key.name = name → key ≠ .field name →
      next.get? key.bytes = view.get? key.bytes)
    (hrun : ∀ page container, contents.container page = some container →
      next.run page = view.run page) : next.Holds name contents where
  header := by
    rw [← h.header, GraphHeader.find, GraphHeader.find, hget (.graph name) rfl (by simp)]
  node id := by rw [hget (.node name id) rfl (by simp), h.node id]
  container page := by
    rw [hget (.container name page) rfl (by simp), ← h.container page]
    cases hstored : view.get? (RecordKey.container name page).bytes with
    | none => rfl
    | some stored =>
      have hcontainer := h.container page
      rw [hstored] at hcontainer
      obtain ⟨container, hfound, _⟩ := Option.map_eq_some_iff.mp hcontainer.symm
      rw [Option.map_some, Option.map_some, Container.ofStored, Container.ofStored,
        hrun page container hfound]

/-! ## Opening -/

namespace FieldGraph

variable {view : Snapshot} {name : String} {contents base : GraphContents}

/-- A fold over the records with a stem, each under the number at the end of its key, finds under a
number what stands under the key with that number.

**Proof sketch.** If nothing stands under the key with the number, no record that is scanned changes
what is found. Otherwise one does, and those behind it have other numbers. -/
lemma look_scan {γ δ : Type} (look : γ → UInt64 → Option δ) (value : UInt64 → Bytes → δ)
    {f : γ → Bytes × Bytes → γ} {stem : Bytes}
    (hset : ∀ c entry raw, look (f c entry) raw =
      if (Bytes.after? stem entry.1).bind RecordKey.number? = some raw then
        some (value raw entry.2) else look c raw)
    {start : γ} {raw : UInt64} (hstart : look start raw = none) :
    look ((view.scan stem).foldl f start) raw =
      (view.get? (stem ++ Bytes.bigEndian 8 raw.toNat)).map (value raw) := by
  have hkey : ∀ entry : Bytes × Bytes,
      (Bytes.after? stem entry.1).bind RecordKey.number? = some raw →
      entry.1 = stem ++ Bytes.bigEndian 8 raw.toNat := fun entry h =>
    RecordKey.bind_number?_eq_some_iff.mp h
  cases hstored : view.get? (stem ++ Bytes.bigEndian 8 raw.toNat) with
  | none =>
    rw [foldl_look_of_forall_ne
      (fun entry : Bytes × Bytes => (Bytes.after? stem entry.1).bind RecordKey.number?)
      (fun entry => some (value raw entry.2)) (fun c entry => hset c entry raw), hstart]
    · rfl
    · intro entry hentry hnumber
      have hget := (Snapshot.mem_scan_iff.mp hentry).1
      rw [hkey entry hnumber, hstored] at hget
      exact absurd hget (by simp)
  | some stored =>
    have hin : (stem ++ Bytes.bigEndian 8 raw.toNat, stored) ∈ view.scan stem :=
      Snapshot.mem_scan_iff.mpr ⟨hstored, Bytes.startsWith_iff.mpr ⟨_, rfl⟩⟩
    rw [foldl_look_of_mem
      (fun entry : Bytes × Bytes => (Bytes.after? stem entry.1).bind RecordKey.number?)
      (fun entry => some (value raw entry.2)) (fun c entry => hset c entry raw)
      (RecordKey.bind_number?_eq_some_iff.mpr rfl) hin]
    · rfl
    · rintro ⟨key, bytes⟩ hentry hnumber
      have hsame := hkey (key, bytes) hnumber
      have hget := (Snapshot.mem_scan_iff.mp hentry).1
      simp only at hsame
      rw [hsame, hstored, Option.some.injEq] at hget
      rw [hsame, hget]

/-- The nodes that are loaded are those that are stored under the keys of nodes. -/
lemma getElem?_loadNodes (id : VectorId) :
    (loadNodes view name)[id]? = (view.get? (RecordKey.node name id).bytes).map decode := by
  refine look_scan (fun (nodes : Nodes) raw => nodes[(⟨raw⟩ : VectorId)]?)
    (fun _ stored => decode stored) (fun nodes entry raw => ?_) ?_
  · cases hnumber : (Bytes.after? (RecordKey.nodeStem name) entry.1).bind RecordKey.number? with
    | none => simp
    | some other => simp [Std.TreeMap.getElem?_insert]
  · simp

/-- The containers that are loaded are those that are stored under the keys of containers. -/
lemma getElem?_loadContainers (page : PageId) :
    (loadContainers view name)[page]? =
      (view.get? (RecordKey.container name page).bytes).map (Container.ofStored view page) := by
  refine look_scan (fun (containers : Containers) raw => containers[(⟨raw⟩ : PageId)]?)
    (fun raw stored => Container.ofStored view ⟨raw⟩ stored) (fun containers entry raw => ?_) ?_
  · cases hnumber :
      (Bytes.after? (RecordKey.containerStem name) entry.1).bind RecordKey.number? with
    | none => simp
    | some other =>
      simp only [Std.TreeMap.getElem?_insert, Std.LawfulEqCmp.compare_eq_iff_eq, PageId.mk.injEq,
        Option.some.injEq]
      split_ifs with heq
      · rw [heq]
      · rfl
  · simp

/-- **Opening the graph of a field** gives what the snapshot holds.

**Proof sketch.** Loading reads every record under the stems of the field, and nothing has been
changed yet. -/
theorem exists_load {field : FieldRecord} (h : view.Holds field.name contents) :
    ∃ graph, load view field.name (.ofOptions field.options) = .ok graph ∧
      graph.Shows field contents contents := by
  refine ⟨_, by rw [load, h.header, Except.ok_bind, Except.pure_eq_ok], ?_⟩
  exact {
    name := rfl
    codec := rfl
    header := rfl
    node := fun id => (getElem?_loadNodes id).trans (h.node id)
    container := fun page => (getElem?_loadContainers page).trans (h.container page)
    node_same := fun _ _ => rfl
    node_changed := fun id hid => absurd hid (by simp)
    container_same := fun _ _ => rfl
    container_changed := fun page hpage => absurd hpage (by simp) }

/-! ## Writing back -/

/-- What writing back some containers has done to a transaction. -/
structure WritesContainers (name : String) (contents : GraphContents) (pages : List PageId)
    (txn txn' : WriteTransaction) : Prop where
  base : txn'.base = txn.base
  nextPage : txn'.nextPage = txn.nextPage
  run : ∀ page ∈ pages, ∀ container, contents.container page = some container →
    txn'.view.run page = .ok container.run
  get? : ∀ page ∈ pages, ∀ container, contents.container page = some container →
    txn'.view.get? (RecordKey.container name page).bytes = some (encode container.record)
  run_of_notMem : ∀ page, page ∉ pages → txn'.view.run page = txn.view.run page
  get?_of_ne : ∀ key, (∀ page ∈ pages, key ≠ (RecordKey.container name page).bytes) →
    txn'.view.get? key = txn.view.get? key

/-- What writing back some nodes has done to a transaction. -/
structure WritesNodes (name : String) (contents : GraphContents) (ids : List VectorId)
    (txn txn' : WriteTransaction) : Prop where
  base : txn'.base = txn.base
  nextPage : txn'.nextPage = txn.nextPage
  run : ∀ page, txn'.view.run page = txn.view.run page
  get? : ∀ id ∈ ids, ∀ node, contents.node id = some node →
    txn'.view.get? (RecordKey.node name id).bytes = some (encode node)
  get?_of_ne : ∀ key, (∀ id ∈ ids, key ≠ (RecordKey.node name id).bytes) →
    txn'.view.get? key = txn.view.get? key

variable {graph : FieldGraph} {field : FieldRecord} {txn : WriteTransaction}

/-- Containers of a field under the same key have the same page. -/
lemma container_bytes_inj {a b : PageId}
    (h : (RecordKey.container name a).bytes = (RecordKey.container name b).bytes) : a = b :=
  congrArg PageId.mk (RecordKey.raw_inj_of_bigEndian (List.append_cancel_left h))

/-- Nodes of a field under the same key are of the same vector. -/
lemma node_bytes_inj {a b : VectorId}
    (h : (RecordKey.node name a).bytes = (RecordKey.node name b).bytes) : a = b :=
  congrArg VectorId.mk (RecordKey.raw_inj_of_bigEndian (List.append_cancel_left h))

/-- Writing out some containers leaves the records of the others. -/
lemma WritesContainers.get?_of_notMem {pages : List PageId} {txn' : WriteTransaction}
    (h : WritesContainers name contents pages txn txn') {page : PageId} (hpage : page ∉ pages) :
    txn'.view.get? (RecordKey.container name page).bytes =
      txn.view.get? (RecordKey.container name page).bytes :=
  h.get?_of_ne _ fun _ hother heq => hpage (container_bytes_inj heq ▸ hother)

/-- Writing out some nodes leaves the records of the others. -/
lemma WritesNodes.get?_of_notMem {ids : List VectorId} {txn' : WriteTransaction}
    (h : WritesNodes name contents ids txn txn') {id : VectorId} (hid : id ∉ ids) :
    txn'.view.get? (RecordKey.node name id).bytes =
      txn.view.get? (RecordKey.node name id).bytes :=
  h.get?_of_ne _ fun _ hother heq => hid (node_bytes_inj heq ▸ hother)

/-- Containers whose runs have been handed out can be written back.

**Proof sketch.** Induction on the pages. Writing a container changes its own run and record
only. -/
lemma Shows.exists_foldlM_flushContainer (h : graph.Shows field base contents)
    {pages : List PageId} (hpresent : ∀ page ∈ pages, (contents.container page).isSome = true)
    (hbacked : ∀ page ∈ pages, ∀ container, contents.container page = some container →
      ∃ run, txn.view.run page = .ok run ∧ container.run.size = run.size) :
    ∃ txn', pages.foldlM graph.flushContainer txn = .ok txn' ∧
      WritesContainers field.name contents pages txn txn' := by
  induction pages generalizing txn with
  | nil =>
    exact ⟨txn, rfl, rfl, rfl, by simp, by simp, fun _ _ => rfl, fun _ _ => rfl⟩
  | cons page pages ih =>
    obtain ⟨container, hcontainer⟩ := Option.isSome_iff_exists.mp (hpresent page (by simp))
    obtain ⟨run, hrun, hsize⟩ := hbacked page (by simp) container hcontainer
    obtain ⟨between, hwrite, hsame, hnext, hruns⟩ := txn.exists_writeRun hrun hsize
    set key := (RecordKey.container field.name page).bytes with hkey
    have hstep : graph.flushContainer txn page =
        .ok (between.put key (encode container.record)) := by
      rw [flushContainer, h.container_eq hcontainer, Except.ok_bind, hwrite, h.name, hkey]
      rfl
    obtain ⟨txn', hfold, hrest⟩ := @ih (between.put key (encode container.record))
      (fun other hother => hpresent other (by simp [hother])) (fun other hother found hfound => by
        obtain ⟨run', hrun', hsize'⟩ := hbacked other (by simp [hother]) found hfound
        rw [WriteTransaction.run_view_put, hruns]
        split_ifs with heq
        · subst heq
          obtain rfl := Option.some.inj (hcontainer.symm.trans hfound)
          exact ⟨_, rfl, rfl⟩
        · exact ⟨run', hrun', hsize'⟩)
    have hput : ∀ other, (between.put key (encode container.record)).view.get? other =
        if key = other then some (encode container.record) else txn.view.get? other := by
      intro other
      rw [WriteTransaction.get?_view_put, hsame.get?]
    refine ⟨txn', by rw [List.foldlM_cons, hstep, Except.ok_bind, hfold], ?_⟩
    exact {
      base := hrest.base.trans hsame.base
      nextPage := hrest.nextPage.trans hnext
      run := by
        intro other hother found hfound
        by_cases hin : other ∈ pages
        · exact hrest.run other hin found hfound
        · obtain rfl := (List.mem_cons.mp hother).resolve_right hin
          obtain rfl := Option.some.inj (hcontainer.symm.trans hfound)
          rw [hrest.run_of_notMem other hin, WriteTransaction.run_view_put, hruns, if_pos rfl]
      get? := by
        intro other hother found hfound
        by_cases hin : other ∈ pages
        · exact hrest.get? other hin found hfound
        · obtain rfl := (List.mem_cons.mp hother).resolve_right hin
          obtain rfl := Option.some.inj (hcontainer.symm.trans hfound)
          rw [hrest.get?_of_notMem hin, hput, if_pos rfl]
      run_of_notMem := by
        intro other hother
        rw [List.mem_cons, not_or] at hother
        rw [hrest.run_of_notMem other hother.2, WriteTransaction.run_view_put, hruns,
          if_neg (Ne.symm hother.1)]
      get?_of_ne := by
        intro other hother
        rw [hrest.get?_of_ne other fun page hpage => hother page (by simp [hpage]), hput,
          if_neg (Ne.symm (hother page (by simp)))] }

/-- Nodes can be written back.

**Proof sketch.** Induction on the names. Writing a node changes its own record only. -/
lemma Shows.exists_foldlM_flushNode (h : graph.Shows field base contents)
    {ids : List VectorId} (hpresent : ∀ id ∈ ids, (contents.node id).isSome = true) :
    ∃ txn', ids.foldlM graph.flushNode txn = .ok txn' ∧
      WritesNodes field.name contents ids txn txn' := by
  induction ids generalizing txn with
  | nil => exact ⟨txn, rfl, rfl, rfl, fun _ => rfl, by simp, fun _ _ => rfl⟩
  | cons id ids ih =>
    obtain ⟨node, hnode⟩ := Option.isSome_iff_exists.mp (hpresent id (by simp))
    set key := (RecordKey.node field.name id).bytes with hkey
    have hstep : graph.flushNode txn id = .ok (txn.put key (encode node)) := by
      rw [flushNode, h.node_eq hnode, Except.ok_bind, h.name, Except.pure_eq_ok]
    obtain ⟨txn', hfold, hrest⟩ := @ih (txn.put key (encode node))
      fun other hother => hpresent other (by simp [hother])
    refine ⟨txn', by rw [List.foldlM_cons, hstep, Except.ok_bind, hfold], ?_⟩
    exact {
      base := hrest.base
      nextPage := hrest.nextPage
      run := fun page => (hrest.run page).trans (txn.run_view_put key _ page)
      get? := by
        intro other hother found hfound
        by_cases hin : other ∈ ids
        · exact hrest.get? other hin found hfound
        · obtain rfl := (List.mem_cons.mp hother).resolve_right hin
          obtain rfl := Option.some.inj (hnode.symm.trans hfound)
          rw [hrest.get?_of_notMem hin, WriteTransaction.get?_view_put, if_pos rfl]
      get?_of_ne := by
        intro other hother
        rw [hrest.get?_of_ne other fun id hid => hother id (by simp [hid]),
          WriteTransaction.get?_view_put, if_neg (Ne.symm (hother id (by simp)))] }

end FieldGraph

/-- All records of a graph can be stored. -/
structure GraphContents.Fits (contents : GraphContents) : Prop where
  header : contents.header.Fits
  node : ∀ id node, contents.node id = some node → node.Fits
  container : ∀ page container, contents.container page = some container → container.record.Fits

namespace FieldGraph

variable {name : String} {contents base : GraphContents} {graph : FieldGraph} {field : FieldRecord}
  {txn : WriteTransaction}

/-- What writing back a graph has done to a transaction: it holds the graph, and has changed nothing
but the records of the field and the runs of its containers. -/
structure Flushed (name : String) (contents : GraphContents) (txn txn' : WriteTransaction) :
    Prop where
  base : txn'.base = txn.base
  nextPage : txn'.nextPage = txn.nextPage
  holds : txn'.view.Holds name contents
  get?_of_ne : ∀ key, (∀ record : RecordKey, record.name = name → record ≠ .field name →
    key ≠ record.bytes) → txn'.view.get? key = txn.view.get? key
  run_of_none : ∀ page, contents.container page = none → txn'.view.run page = txn.view.run page

/-- Writing a graph back writes its containers, its nodes and its header. -/
lemma Shows.exists_writes (h : graph.Shows field base contents)
    (hbacked : ∀ page container, contents.container page = some container →
      ∃ run, txn.view.run page = .ok run ∧ run.size = container.run.size) :
    ∃ txn₁ txn₂, WritesContainers field.name contents graph.changedContainers.toList txn txn₁ ∧
      WritesNodes field.name contents graph.changedNodes.toList txn₁ txn₂ ∧
      graph.flush txn =
        .ok (txn₂.put (RecordKey.graph field.name).bytes (encode contents.header)) := by
  obtain ⟨txn₁, hfold₁, hcontainers⟩ := h.exists_foldlM_flushContainer
    (fun page hpage => h.container_changed page (Std.TreeSet.mem_toList.mp hpage))
    (fun page _ container hcontainer => by
      obtain ⟨run, hrun, hsize⟩ := hbacked page container hcontainer
      exact ⟨run, hrun, hsize.symm⟩)
  obtain ⟨txn₂, hfold₂, hnodes⟩ := @Shows.exists_foldlM_flushNode _ _ _ _ txn₁ h
    graph.changedNodes.toList fun id hid => h.node_changed id (Std.TreeSet.mem_toList.mp hid)
  refine ⟨txn₁, txn₂, hcontainers, hnodes, ?_⟩
  rw [flush, hfold₁, Except.ok_bind, hfold₂, Except.ok_bind, h.name, h.header, Except.pure_eq_ok]

/-- **Writing a graph back succeeds** if its records can be stored and the runs of its containers
have been handed out, and the transaction holds the graph then.

**Proof sketch.** A record that has changed is what has been written, and what has been written is
read back. A record that has not changed is what the transaction held before. -/
theorem Shows.exists_flush (h : graph.Shows field base contents) (hfits : contents.Fits)
    (hplain : '/' ∉ field.name.toList) (hholds : txn.view.Holds field.name base)
    (hbacked : ∀ page container, contents.container page = some container →
      ∃ run, txn.view.run page = .ok run ∧ run.size = container.run.size) :
    ∃ txn', graph.flush txn = .ok txn' ∧ Flushed field.name contents txn txn' := by
  obtain ⟨txn₁, txn₂, hcontainers, hnodes, hflush⟩ := h.exists_writes hbacked
  have hne := @RecordKey.bytes_ne_of_ne field.name hplain
  set key := (RecordKey.graph field.name).bytes with hkey
  refine ⟨txn₂.put key (encode contents.header), hflush, ?_⟩
  exact {
    base := hnodes.base.trans hcontainers.base
    nextPage := hnodes.nextPage.trans hcontainers.nextPage
    holds := {
      header := by
        rw [GraphHeader.find, WriteTransaction.get?_view_put, if_pos hkey]
        exact GraphHeader.decode_encode hfits.header
      node := by
        intro id
        have hid : key ≠ (RecordKey.node field.name id).bytes := hne rfl rfl (by simp)
        rw [WriteTransaction.get?_view_put, if_neg hid]
        by_cases hchanged : id ∈ graph.changedNodes
        · obtain ⟨node, hnode⟩ := Option.isSome_iff_exists.mp (h.node_changed id hchanged)
          rw [hnodes.get? id (Std.TreeSet.mem_toList.mpr hchanged) node hnode, hnode,
            Option.map_some, Option.map_some, NodeRecord.decode_encode (hfits.node id node hnode)]
        · have hnotin : id ∉ graph.changedNodes.toList := fun hin =>
            hchanged (Std.TreeSet.mem_toList.mp hin)
          rw [hnodes.get?_of_notMem hnotin, hcontainers.get?_of_ne _ fun _ _ =>
            hne rfl rfl (by simp), hholds.node id, h.node_same id hchanged]
      container := by
        intro page
        have hpage : key ≠ (RecordKey.container field.name page).bytes := hne rfl rfl (by simp)
        have hread : ∀ stored, Container.ofStored (txn₂.put key (encode contents.header)).view page
            stored = Container.ofStored txn₁.view page stored := by
          intro stored
          rw [Container.ofStored, Container.ofStored, WriteTransaction.run_view_put, hnodes.run]
        rw [WriteTransaction.get?_view_put, if_neg hpage, hnodes.get?_of_ne _ fun _ _ =>
          hne rfl rfl (by simp), funext hread]
        by_cases hchanged : page ∈ graph.changedContainers
        · obtain ⟨container, hcontainer⟩ :=
            Option.isSome_iff_exists.mp (h.container_changed page hchanged)
          have hin := Std.TreeSet.mem_toList.mpr hchanged
          rw [hcontainers.get? page hin container hcontainer, hcontainer, Option.map_some,
            Option.map_some, Container.ofStored,
            ContainerRecord.decode_encode (hfits.container page container hcontainer),
            Except.ok_bind, hcontainers.run page hin container hcontainer]
          rfl
        · have hnotin : page ∉ graph.changedContainers.toList := fun hin =>
            hchanged (Std.TreeSet.mem_toList.mp hin)
          have hsame : Container.ofStored txn₁.view page = Container.ofStored txn.view page := by
            funext stored
            rw [Container.ofStored, Container.ofStored, hcontainers.run_of_notMem page hnotin]
          rw [hcontainers.get?_of_notMem hnotin, hsame, hholds.container page,
            h.container_same page hchanged] }
    get?_of_ne := by
      intro other hother
      have hgraph := hother (.graph field.name) rfl (by simp)
      rw [WriteTransaction.get?_view_put, if_neg (Ne.symm hgraph),
        hnodes.get?_of_ne other fun id _ => hother (.node field.name id) rfl (by simp),
        hcontainers.get?_of_ne other fun page _ =>
          hother (.container field.name page) rfl (by simp)]
    run_of_none := by
      intro page hpage
      rw [WriteTransaction.run_view_put, hnodes.run]
      refine hcontainers.run_of_notMem page fun hin => ?_
      have hsome := h.container_changed page (Std.TreeSet.mem_toList.mp hin)
      rw [hpage] at hsome
      exact absurd hsome (by simp) }

end FieldGraph

end Proximity
