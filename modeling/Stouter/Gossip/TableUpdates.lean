import Stouter.Gossip.Table
import Stouter.Snapshots.Basic

/-! # Concurrent updates of the table

The handlers of a daemon run at the same time and change the membership table
through `update_known_nodes`, while readers load it without a lock. The table
that a reader finds is always one that the handlers leave when they run one
after the other, so what holds of a daemon that handles one message at a time
holds of it in every moment.
-/

namespace Stouter

open Snapshot

/-- What a handler makes of its copy of the table, and the flag it returns. -/
def TableAct.update (config : Config) : TableAct → NodeMap → NodeMap × Bool
  | .inboundSync peerAddr nodes now, kn =>
    let nodes := if peerAddr.isEmpty then nodes else fixUnroutableAddrs peerAddr nodes
    mergeNodes config.nodeId nodes none now kn
  | .outboundSync addr nodes now, kn =>
    mergeNodes config.nodeId (fixUnroutableAddrs addr nodes) (some addr) now kn
  | .nodeJoin id addr now, kn => applyNodeJoin id addr now kn
  | .nodeLeave id, kn => (applyNodeLeave id kn, false)
  | .reverseRegistration nodeId timestampMs nowMs now, kn =>
    match handleReverseRegistration config nodeId timestampMs nowMs now kn with
    | .ok knownNodes => (knownNodes, false)
    -- The handler returns before it asks for the lock.
    | .error _ => (kn, false)
  | .publishHealth _, kn => (kn, false)

/-- The table of a daemon and the handlers that are changing it. -/
abbrev SharedTable := Cell NodeMap TableAct Bool

namespace SharedTable

def system (config : Config) : Transition SharedTable (CellAct TableAct) :=
  Cell.system (TableAct.update config) ∅

variable {config : Config} {store : Store} {s t : SharedTable} {log : List (TableAct × Bool)}
  {kn : NodeMap}

theorem handle_knownNodes (d : Daemon) (a : TableAct) :
    (d.handle a).knownNodes = (a.update d.config d.knownNodes).1 := by
  cases a with
  | reverseRegistration nodeId timestampMs nowMs now =>
    simp only [Daemon.handle, TableAct.update]
    cases handleReverseRegistration d.config nodeId timestampMs nowMs now d.knownNodes <;> rfl
  | _ => rfl

theorem run_config (config : Config) (store : Store) (acts : List TableAct) :
    (Daemon.run config store acts).config = config := by
  induction acts using List.reverseRecOn with
  | nil => rfl
  | append_singleton acts a ih => rw [Daemon.run_concat, Daemon.handle_config, ih]

/-- Updates made one after the other are a run of the daemon. -/
theorem run_of_sequential (h : Sequential (TableAct.update config) ∅ log kn) :
    kn = (Daemon.run config store (log.map Prod.fst)).knownNodes := by
  induction h with
  | nil => rfl
  | concat h op ih =>
    rw [List.map_append, List.map_cons, List.map_nil, Daemon.run_concat, handle_knownNodes,
      run_config, ← ih]

theorem result_of_sequential (h : Sequential (TableAct.update config) ∅ log kn)
    {pre post : List (TableAct × Bool)} {a : TableAct} {changed : Bool}
    (hlog : log = pre ++ (a, changed) :: post) : changed =
      (a.update config (Daemon.run config store (pre.map Prod.fst)).knownNodes).2 := by
  induction h generalizing post with
  | nil => simp at hlog
  | @concat log v h op ih =>
    rcases List.eq_nil_or_concat post with rfl | ⟨post, last, rfl⟩
    · obtain ⟨rfl, hlast⟩ := List.append_inj' hlog rfl
      obtain ⟨rfl, rfl⟩ : op = a ∧ (op.update config v).2 = changed := by simpa using hlast
      rw [← run_of_sequential h]
    · have hinit : log ++ [(op, (op.update config v).2)] =
          (pre ++ (a, changed) :: post) ++ [last] := by
        rw [hlog]
        simp
      exact ih (List.append_inj' hinit rfl).1

/-- Whatever the handlers of a daemon do at the same time, its table is the one they leave when
they run one after the other, in an order that never changes for updates already made: each update
is made once, returns what it returns in that order, and a table of admissible updates is well
formed in every moment. -/
theorem table_updates_linearize (h : (system config).Reachable s) (store : Store) :
    s.value = (Daemon.run config store (s.log.map Prod.fst)).knownNodes ∧
    s.log.Perm (s.writers.filterMap Snapshot.Writer.made?) ∧
    (∀ pre a changed post, s.log = pre ++ (a, changed) :: post → changed =
      (a.update config (Daemon.run config store (pre.map Prod.fst)).knownNodes).2) ∧
    (∀ t, (system config).Reaches s t → s.log <+: t.log) ∧
    ((∀ r ∈ s.log, r.1.Admissible) → ∀ localHealth,
      Daemon.WellFormed ⟨config, store, s.value, localHealth⟩) := by
  obtain ⟨-, -, hlog, hmade⟩ := Cell.sound_of_reachable h
  have hrun : s.value = (Daemon.run config store (s.log.map Prod.fst)).knownNodes :=
    run_of_sequential hlog
  refine ⟨hrun, hmade, fun pre a changed post => result_of_sequential hlog,
    fun t => Cell.log_prefix, fun hall localHealth => ?_⟩
  apply Daemon.wellFormed_of_sane
  have hadm : ∀ a ∈ s.log.map Prod.fst, a.Admissible := by
    intro a ha
    obtain ⟨r, hr, rfl⟩ := List.mem_map.mp ha
    exact hall r hr
  have hsane := Daemon.sane_run config store hadm
  rw [run_config, ← hrun] at hsane
  exact hsane

def joinWaits : SharedTable :=
  Transition.run (Cell.next (TableAct.update .default)) (.start ∅)
    [.submit (.nodeJoin "a" "10.0.0.1:8080" 1), .submit (.reverseRegistration "b" 7 7 2), .lock 1,
      .copy 1, .store 1, .unlock 1, .lock 0, .copy 0, .store 0]

theorem table_updates_linearize_joinWaits :
    joinWaits.log.length = 2 ∧ joinWaits.value =
      (Daemon.run .default ⟨.default, none⟩
        [.reverseRegistration "b" 7 7 2, .nodeJoin "a" "10.0.0.1:8080" 1]).knownNodes := by
  have hr : (system .default).Reachable joinWaits := ⟨_, rfl, Transition.reaches_run rfl⟩
  exact ⟨rfl, (table_updates_linearize hr ⟨.default, none⟩).1⟩

end SharedTable

end Stouter
