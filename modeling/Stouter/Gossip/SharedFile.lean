import Stouter.Config.Footprint
import Stouter.Gossip.Store
import Stouter.Histories.Basic
import Stouter.Transition.Basic

/-! # The config file between the daemon and the CLI

Local CLI commands load the config file, change it and save it without the
daemon's lock, and the daemon takes the change over in a later poll pass. A
mutation is lost when someone writes the file, or changes memory, starting
from a configuration that is not the newest. When everyone starts from the
newest one, the successful mutations form one linear history and a poll pass
ends at its last state.
-/

namespace Stouter

/-- A successful mutation, with the configurations before and after it. -/
abbrev Mutation := Applied DynamicConfig AdminOp

/-- A poll pass that has read the file and holds the lock. -/
structure Pass where
  file : DynamicConfig
  /-- The mutations that had succeeded when it read the file. -/
  due : List Mutation

/-- A daemon, the CLI commands that share its config file, and what they broadcast. -/
structure Shared where
  store : Store
  polling : Option Pass
  /-- Commands that have loaded the file, with what they loaded. -/
  loaded : List (AdminOp × DynamicConfig)
  /-- What commands have saved and not broadcast yet. -/
  unsent : List DynamicConfig
  /-- What commands have broadcast to the peers. -/
  sent : List DynamicConfig
  successes : List Mutation

inductive SharedAct
  | load (op : AdminOp) (readable : Bool)
  | save (command : ℕ) (saved : Bool)
  | broadcast (command : ℕ)
  | admin (op : AdminOp) (saved : Bool)
  | merge (origin : Option ℕ) (ops : List AdminOp) (saved : Bool)
  | persist (saved : Bool)
  | pollRead (readable : Bool)
  | pollAdopt (saved : Bool)

/-- `service add` starts from the default configuration when it cannot load the file. -/
def AdminOp.defaultsConfig : AdminOp → Bool
  | .serviceAdd .. => true
  | _ => false

/-- What a chain of mutations on the peers makes of a configuration, if all succeed. -/
def derive (http : HttpCrate) :
    DynamicConfig → List AdminOp → Option (List Mutation × DynamicConfig)
  | dc, [] => some ([], dc)
  | dc, op :: ops =>
    match op.mutate http dc with
    | (.ok _, dc') => (derive http dc' ops).map fun (ms, last) => (⟨op, dc, dc'⟩ :: ms, last)
    | (.error _, _) => none

namespace Shared

open Applied

/-- A section of the daemon under its lock, which waits for a poll pass to end. -/
def locked (s : Shared) (t : Shared) : Option Shared := if s.polling.isNone then some t else none

/-- The configuration a peer starts from: the daemon's current one, or one a command broadcast. -/
def origin (s : Shared) : Option ℕ → Option DynamicConfig
  | none => some s.store.memory
  | some i => s.sent[i]?

def next (http : HttpCrate) (s : Shared) : SharedAct → Option Shared
  | .load op readable =>
    match (if readable then s.store.file else none) with
    | some dc => some { s with loaded := (op, dc) :: s.loaded }
    | none =>
      if op.defaultsConfig then some { s with loaded := (op, .default) :: s.loaded } else some s
  | .save command saved =>
    s.loaded[command]?.map fun (op, dc) =>
      let s := { s with loaded := s.loaded.eraseIdx command }
      match op.mutate http dc with
      | (.error _, _) => s
      | (.ok _, dc') =>
        if saved then
          { s with
            store := { s.store with file := some dc' }
            unsent := dc' :: s.unsent
            successes := s.successes ++ [⟨op, dc, dc'⟩] }
        else s
  | .broadcast command =>
    s.unsent[command]?.map fun dc =>
      { s with unsent := s.unsent.eraseIdx command, sent := dc :: s.sent }
  | .admin op saved =>
    s.locked { s with
      store := (s.store.admin http op saved).2
      successes := match op.mutate http s.store.memory with
        | (.ok _, dc) => s.successes ++ [⟨op, s.store.memory, dc⟩]
        | (.error _, _) => s.successes }
  | .merge origin ops saved =>
    (s.origin origin).bind fun dc => (derive http dc ops).bind fun (ms, config) =>
      s.locked { s with
        store := s.store.merge config saved
        successes :=
          if config.version > s.store.memory.version then s.successes ++ ms else s.successes }
  | .persist saved => s.locked { s with store := s.store.persist s.store.memory saved }
  | .pollRead readable =>
    match (if readable then s.store.file else none) with
    | some file => s.locked { s with polling := some ⟨file, s.successes⟩ }
    | none => s.locked s
  | .pollAdopt saved =>
    s.polling.map fun pass =>
      match Store.adopted s.store.memory pass.file with
      | none => { s with polling := none }
      | some dc =>
        { s with store := ⟨dc, persistStateWith saved dc s.store.file⟩, polling := none }

/-- A daemon starts from the configuration in its file, with no command at work. -/
def Started (s : Shared) : Prop :=
  s.store.file = some s.store.memory ∧ s.polling = none ∧ s.loaded = [] ∧ s.unsent = [] ∧
    s.sent = [] ∧ s.successes = []

def system (http : HttpCrate) : Transition Shared SharedAct :=
  Transition.ofNext Started (next http)

/-- Neither memory nor the file is ahead of the configuration. -/
def Newest (s : Shared) (dc : DynamicConfig) : Prop :=
  s.store.memory.version ≤ dc.version ∧ ∀ f, s.store.file = some f → f.version ≤ dc.version

/-- Every change and every write of the file starts from the newest configuration, and from one
whose version can still be raised. -/
def Careful (http : HttpCrate) (s : Shared) : SharedAct → Prop
  | .load op readable => op.defaultsConfig = true → readable = true
  | .save command saved => ∀ op dc v dc', s.loaded[command]? = some (op, dc) →
      op.mutate http dc = (.ok v, dc') → saved = true → s.Newest dc ∧ dc.version ≠ maxVersion
  | .broadcast _ => True
  | .admin op _ => ∀ v dc', op.mutate http s.store.memory = (.ok v, dc') →
      s.Newest s.store.memory ∧ s.store.memory.version ≠ maxVersion
  | .merge origin ops _ => ∀ dc ms config, s.origin origin = some dc →
      derive http dc ops = some (ms, config) → config.version > s.store.memory.version →
      s.Newest dc ∧ ∀ m ∈ ms, m.before.version ≠ maxVersion
  | .persist saved => saved = true → s.Newest s.store.memory
  | .pollRead _ => True
  | .pollAdopt saved => ∀ pass, s.polling = some pass →
      pass.file.version > s.store.memory.version → saved = true → s.Newest pass.file

def careful (http : HttpCrate) : Transition Shared SharedAct :=
  (system http).restrict fun s a _ => Careful http s a

/-! ## The linear history -/

/-- A successful mutation whose version bump does not wrap. -/
def Raises (http : HttpCrate) (dc : DynamicConfig) (op : AdminOp) (dc' : DynamicConfig) : Prop :=
  dc.version ≠ maxVersion ∧ ∃ v, op.mutate http dc = (.ok v, dc')

/-- The configurations that a step can start from. -/
inductive Known (s : Shared) : DynamicConfig → Prop
  | memory : Known s s.store.memory
  | file {dc : DynamicConfig} : s.store.file = some dc → Known s dc
  | loaded {op : AdminOp} {dc : DynamicConfig} : (op, dc) ∈ s.loaded → Known s dc
  | unsent {dc : DynamicConfig} : dc ∈ s.unsent → Known s dc
  | sent {dc : DynamicConfig} : dc ∈ s.sent → Known s dc

/-- A pass that has read the file will end at the state that was the newest one then. -/
structure Pending (start : DynamicConfig) (s : Shared) (pass : Pass) : Prop where
  due : pass.due <+: s.successes
  memory : Visits start pass.due s.store.memory
  file : Visits start pass.due pass.file
  newest : s.store.memory = current start pass.due ∨ pass.file = current start pass.due

/-- The successful mutations are one history, every configuration is one of its states, and
memory or the file holds the last one. -/
structure Linear (http : HttpCrate) (start : DynamicConfig) (s : Shared) : Prop where
  chain : Chain (Raises http) start s.successes
  known : ∀ dc, s.Known dc → Visits start s.successes dc
  readable : s.store.file.isSome = true
  newest : s.store.memory = current start s.successes ∨
    s.store.file = some (current start s.successes)
  pass : ∀ pass, s.polling = some pass → Pending start s pass

variable {http : HttpCrate} {start dc dc' : DynamicConfig} {s t : Shared} {a : SharedAct}

theorem rank_raises (dc : DynamicConfig) (op : AdminOp) (dc' : DynamicConfig)
    (h : Raises http dc op dc') : dc'.version.toNat = dc.version.toNat + 1 := by
  obtain ⟨hv, v, hm⟩ := h
  have hmut := op.mutates http dc
  rw [hm] at hmut
  rcases hmut with ⟨err, he⟩ | ⟨-, hver⟩
  · cases he
  · rw [hver]
    exact toNat_version_succ (toNat_succ_lt hv)

theorem Linear.eq_current (hl : Linear http start s) (hk : Visits start s.successes dc)
    (hn : s.Newest dc) : dc = current start s.successes := by
  apply hl.chain.eq_current rank_raises hk
  rw [← UInt64.le_iff_toNat_le]
  rcases hl.newest with hm | hf
  · rw [← hm]
    exact hn.1
  · exact hn.2 _ hf

theorem derive_chain {ops : List AdminOp} {ms log : List Mutation} {config : DynamicConfig}
    (h : derive http dc ops = some (ms, config)) (hv : ∀ m ∈ ms, m.before.version ≠ maxVersion)
    (hc : Chain (Raises http) start log) (hd : dc = current start log) :
    Chain (Raises http) start (log ++ ms) ∧ current start (log ++ ms) = config := by
  induction ops generalizing dc ms log with
  | nil =>
    obtain ⟨rfl, rfl⟩ := Prod.mk.inj (Option.some.inj h)
    rw [List.append_nil]
    exact ⟨hc, hd.symm⟩
  | cons op ops ih =>
    unfold derive at h
    split at h
    · rename_i v dc' hm
      obtain ⟨⟨rest, last⟩, hrest, heq⟩ := Option.map_eq_some_iff.mp h
      obtain ⟨rfl, rfl⟩ := Prod.mk.inj heq
      rw [List.forall_mem_cons] at hv
      rw [← List.singleton_append, ← List.append_assoc]
      refine ih hrest hv.2 (.concat hc hd ⟨hv.1, v, hm⟩) ?_
      rw [current_concat]
    · cases h

theorem Known.of_subset (h : t.Known dc) (hl : t.loaded ⊆ s.loaded) (hu : t.unsent ⊆ s.unsent)
    (hs : t.sent ⊆ s.sent) : (dc = t.store.memory ∨ t.store.file = some dc) ∨ s.Known dc := by
  cases h with
  | memory => exact .inl (.inl rfl)
  | file hf => exact .inl (.inr hf)
  | loaded hop => exact .inr (.loaded (hl hop))
  | unsent hd => exact .inr (.unsent (hu hd))
  | sent hd => exact .inr (.sent (hs hd))

theorem Known.of_store_eq (h : t.Known dc) (hst : t.store = s.store) (hl : t.loaded ⊆ s.loaded)
    (hu : t.unsent ⊆ s.unsent) (hs : t.sent ⊆ s.sent) : s.Known dc := by
  rcases h.of_subset hl hu hs with (rfl | hf) | h
  · exact hst ▸ .memory
  · exact .file (hst ▸ hf)
  · exact h

theorem Known.of_unchanged {polling : Option Pass} (h : Known { s with polling } dc) : s.Known dc :=
  h.of_store_eq rfl (List.Subset.refl _) (List.Subset.refl _) (List.Subset.refl _)

theorem locked_eq {u : Shared} (h : s.locked u = some t) : s.polling = none ∧ t = u := by
  unfold locked at h
  split_ifs at h with hp
  exact ⟨Option.isNone_iff_eq_none.mp hp, (Option.some.inj h).symm⟩

/-- The history grows at its end, and nothing else comes into play than its last state. -/
theorem Linear.grow (hl : Linear http start s) (ms : List Mutation)
    (hs : t.successes = s.successes ++ ms) (hc : Chain (Raises http) start t.successes)
    (hk : ∀ dc, t.Known dc → s.Known dc ∨ dc = current start t.successes)
    (hf : t.store.file.isSome = true)
    (hn : t.store.memory = current start t.successes ∨
      t.store.file = some (current start t.successes))
    (hp : t.polling = none ∨ t.polling = s.polling ∧ t.store.memory = s.store.memory) :
    Linear http start t := by
  have hpre : s.successes <+: t.successes := hs ▸ List.prefix_append _ _
  refine ⟨hc, fun dc hdc => ?_, hf, hn, fun pass hpass => ?_⟩
  · rcases hk dc hdc with hdc | rfl
    · exact (hl.known dc hdc).mono hpre
    · exact visits_current
  · rcases hp with hp | ⟨hp, hm⟩
    · rw [hp] at hpass
      cases hpass
    · have hpend := hl.pass pass (hp ▸ hpass)
      exact ⟨hpend.due.trans hpre, hm ▸ hpend.memory, hpend.file, hm ▸ hpend.newest⟩

theorem Linear.same (hl : Linear http start s) (hs : t.successes = s.successes)
    (hst : t.store = s.store) (hk : ∀ dc, t.Known dc → s.Known dc) (hp : t.polling = s.polling) :
    Linear http start t := by
  refine hl.grow [] (by simp [hs]) (hs ▸ hl.chain) (fun dc hdc => .inl (hk dc hdc))
    (hst ▸ hl.readable) ?_ (.inr ⟨hp, by rw [hst]⟩)
  rw [hs, hst]
  exact hl.newest

theorem Linear.load {op : AdminOp} {readable : Bool} (hl : Linear http start s)
    (hcare : Careful http s (.load op readable)) (h : next http s (.load op readable) = some t) :
    Linear http start t := by
  simp only [next] at h
  split at h
  · rename_i dc hdc
    obtain rfl := Option.some.inj h
    have hfile : s.store.file = some dc := by
      cases readable with
      | true => exact hdc
      | false => cases hdc
    refine hl.same rfl rfl ?_ rfl
    rintro d (_ | hf | hop | hu | hs)
    · exact .memory
    · exact .file hf
    · rcases List.mem_cons.mp hop with he | hop
      · obtain ⟨-, rfl⟩ := Prod.mk.inj he
        exact .file hfile
      · exact .loaded hop
    · exact .unsent hu
    · exact .sent hs
  · rename_i hnone
    split_ifs at h with hdef
    · -- A readable file is there to be loaded.
      rw [hcare hdef, if_pos rfl] at hnone
      have hsome := hl.readable
      rw [hnone] at hsome
      cases hsome
    · exact Option.some.inj h ▸ hl

theorem Linear.save {command : ℕ} {saved : Bool} (hl : Linear http start s)
    (hcare : Careful http s (.save command saved))
    (h : next http s (.save command saved) = some t) : Linear http start t := by
  obtain ⟨⟨op, dc⟩, hcmd, rfl⟩ := Option.map_eq_some_iff.mp h
  have hdc : s.Known dc := .loaded (List.mem_of_getElem? hcmd)
  have herase : s.loaded.eraseIdx command ⊆ s.loaded := List.eraseIdx_subset
  have hdropped : Linear http start { s with loaded := s.loaded.eraseIdx command } :=
    hl.same rfl rfl (fun d hd => hd.of_store_eq rfl herase (List.Subset.refl _)
      (List.Subset.refl _)) rfl
  dsimp only
  cases hm : op.mutate http dc with
  | mk r dc' =>
    cases r with
    | error err => exact hdropped
    | ok v =>
      dsimp only
      split_ifs with hsaved
      · obtain ⟨hnew, hv⟩ := hcare op dc v dc' hcmd hm hsaved
        have hcur := hl.eq_current (hl.known dc hdc) hnew
        refine hl.grow [⟨op, dc, dc'⟩] rfl (.concat hl.chain hcur ⟨hv, v, hm⟩) ?_ rfl
          (.inr (by rw [current_concat])) (.inr ⟨rfl, rfl⟩)
        rintro d (_ | hf | hop | hu | hs)
        · exact .inl .memory
        · right
          rw [current_concat]
          exact (Option.some.inj hf).symm
        · exact .inl (.loaded (herase hop))
        · rcases List.mem_cons.mp hu with rfl | hu
          · right
            rw [current_concat]
          · exact .inl (.unsent hu)
        · exact .inl (.sent hs)
      · exact hdropped

theorem Linear.broadcast {command : ℕ} (hl : Linear http start s)
    (h : next http s (.broadcast command) = some t) : Linear http start t := by
  obtain ⟨dc, hdc, rfl⟩ := Option.map_eq_some_iff.mp h
  refine hl.same rfl rfl ?_ rfl
  rintro d (_ | hf | hop | hu | hs)
  · exact .memory
  · exact .file hf
  · exact .loaded hop
  · exact .unsent (List.mem_of_mem_eraseIdx hu)
  · rcases List.mem_cons.mp hs with rfl | hs
    · exact .unsent (List.mem_of_getElem? hdc)
    · exact .sent hs

theorem file_persistStateWith (saved : Bool) (hl : Linear http start s) :
    (persistStateWith saved dc s.store.file).isSome = true := by
  obtain ⟨f, hf⟩ := Option.isSome_iff_exists.mp hl.readable
  rw [hf]
  cases saved <;> rfl

theorem known_persisted {saved : Bool} {file : Option DynamicConfig}
    (h : persistStateWith saved dc file = some dc') : file = some dc' ∨ dc' = dc := by
  rcases Store.persistStateWith_cases saved dc file with he | he
  · exact .inl (he.symm.trans h)
  · exact .inr (Option.some.inj (h.symm.trans he))

theorem Linear.advance (hl : Linear http start s) (ms : List Mutation) (saved : Bool)
    (hc : Chain (Raises http) start (s.successes ++ ms))
    (hd : dc = current start (s.successes ++ ms)) (hp : s.polling = none) :
    Linear http start { s with
      store := ⟨dc, persistStateWith saved dc s.store.file⟩, successes := s.successes ++ ms } := by
  refine hl.grow ms rfl hc ?_ (file_persistStateWith saved hl) (.inl hd) (.inl hp)
  intro d hk
  rcases hk.of_subset (s := s) (List.Subset.refl _) (List.Subset.refl _) (List.Subset.refl _)
    with (rfl | hf) | hk
  · exact .inr hd
  · rcases known_persisted hf with hf | rfl
    · exact .inl (.file hf)
    · exact .inr hd
  · exact .inl hk

theorem Linear.admin {op : AdminOp} {saved : Bool} (hl : Linear http start s)
    (hcare : Careful http s (.admin op saved)) (h : next http s (.admin op saved) = some t) :
    Linear http start t := by
  obtain ⟨hp, rfl⟩ := locked_eq h
  rcases s.store.admin_cases http op saved with ⟨err, hm, he⟩ | ⟨dc, hm, -, he⟩
  · simpa only [he, hm] using hl
  · obtain ⟨hnew, hv⟩ := hcare _ dc hm
    have hcur := hl.eq_current (hl.known _ .memory) hnew
    simp only [he, hm]
    exact hl.advance _ saved (.concat hl.chain hcur ⟨hv, _, hm⟩) (by rw [current_concat]) hp

theorem Linear.merge {i : Option ℕ} {ops : List AdminOp} {saved : Bool} (hl : Linear http start s)
    (hcare : Careful http s (.merge i ops saved)) (h : next http s (.merge i ops saved) = some t) :
    Linear http start t := by
  obtain ⟨dc, hdc, h⟩ := Option.bind_eq_some_iff.mp h
  obtain ⟨⟨ms, config⟩, hder, h⟩ := Option.bind_eq_some_iff.mp h
  obtain ⟨hp, rfl⟩ := locked_eq h
  unfold Store.merge
  split_ifs with hgt
  · obtain ⟨hnew, hv⟩ := hcare dc ms config hdc hder hgt
    have hknown : s.Known dc := by
      cases i with
      | none => exact Option.some.inj hdc ▸ .memory
      | some i => exact .sent (List.mem_of_getElem? hdc)
    have hcur := hl.eq_current (hl.known dc hknown) hnew
    obtain ⟨hchain, hlast⟩ := derive_chain hder hv hl.chain hcur
    exact hl.advance ms saved hchain hlast.symm hp
  · exact hl

theorem Linear.persist {saved : Bool} (hl : Linear http start s)
    (hcare : Careful http s (.persist saved)) (h : next http s (.persist saved) = some t) :
    Linear http start t := by
  obtain ⟨hp, rfl⟩ := locked_eq h
  cases saved with
  | true =>
    have hcur := hl.eq_current (hl.known _ .memory) (hcare rfl)
    have hgrown := hl.advance [] true (by simpa using hl.chain) (by simpa using hcur) hp
    rw [Store.persist]
    simpa only [List.append_nil] using hgrown
  | false =>
    have hsame : persistStateWith false s.store.memory s.store.file = s.store.file := by
      cases s.store.file <;> rfl
    rw [Store.persist, hsame]
    exact hl

theorem Linear.pollRead {readable : Bool} (hl : Linear http start s)
    (h : next http s (.pollRead readable) = some t) : Linear http start t := by
  simp only [next] at h
  split at h
  · rename_i file hfile
    obtain ⟨hp, rfl⟩ := locked_eq h
    have hfile : s.store.file = some file := by
      cases readable with
      | true => exact hfile
      | false => cases hfile
    refine ⟨hl.chain, fun d hk => hl.known d hk.of_unchanged, hl.readable, hl.newest, ?_⟩
    rintro pass ⟨⟩
    refine ⟨List.prefix_refl _, hl.known _ .memory, hl.known file (.file hfile), ?_⟩
    exact hl.newest.imp_right fun hf => Option.some.inj (hfile.symm.trans hf)
  · obtain ⟨-, rfl⟩ := locked_eq h
    exact hl

theorem Pending.adopted {pass : Pass} (hl : Linear http start s) (hp : Pending start s pass) :
    (Store.adopted s.store.memory pass.file = none ∧ s.store.memory = current start pass.due) ∨
      Store.adopted s.store.memory pass.file = some pass.file ∧
        pass.file = current start pass.due ∧ s.store.memory.version < pass.file.version := by
  have hchain := hl.chain.of_prefix hp.due
  by_cases hgt : pass.file.version > s.store.memory.version
  · right
    refine ⟨?_, hp.newest.resolve_left fun hm => ?_, hgt⟩
    · have hle : ¬ pass.file.version ≤ s.store.memory.version := UInt64.not_le.mpr hgt
      simp [Store.adopted, hgt, hle]
    · have hle := hchain.rank_le rank_raises hp.file
      rw [← hm, ← UInt64.le_iff_toNat_le] at hle
      exact UInt64.not_le.mpr hgt hle
  · left
    have hmem : s.store.memory = current start pass.due := by
      rcases hp.newest with hm | hf
      · exact hm
      · apply hchain.eq_current rank_raises hp.memory
        rw [← hf, ← UInt64.le_iff_toNat_le]
        exact UInt64.not_lt.mp hgt
    refine ⟨?_, hmem⟩
    by_cases heq : pass.file.version = s.store.memory.version
    · have hsame := hchain.eq_of_rank_eq rank_raises hp.file hp.memory
        (congrArg UInt64.toNat heq)
      simp [Store.adopted, hsame]
    · simp [Store.adopted, hgt, heq]

theorem Linear.pollAdopt {saved : Bool} (hl : Linear http start s)
    (hcare : Careful http s (.pollAdopt saved)) (h : next http s (.pollAdopt saved) = some t) :
    Linear http start t := by
  obtain ⟨pass, hpass, rfl⟩ := Option.map_eq_some_iff.mp h
  have hp := hl.pass pass hpass
  rcases hp.adopted hl with ⟨hnone, -⟩ | ⟨hsome, hfile, hlt⟩
  · rw [hnone]
    exact ⟨hl.chain, fun d hk => hl.known d hk.of_unchanged, hl.readable, hl.newest, nofun⟩
  · rw [hsome]
    have hvisits := hp.file.mono hp.due
    refine ⟨hl.chain, ?_, file_persistStateWith saved hl, ?_, nofun⟩
    · intro d hk
      rcases hk.of_subset (s := s) (List.Subset.refl _) (List.Subset.refl _) (List.Subset.refl _)
        with (rfl | hf) | hk
      · exact hvisits
      · rcases known_persisted hf with hf | rfl
        · exact hl.known d (.file hf)
        · exact hvisits
      · exact hl.known d hk
    · cases saved with
      | true => exact .inl (hl.eq_current hvisits (hcare pass hpass hlt rfl))
      | false =>
        -- Memory was behind what the pass read, so the last state is in the file.
        right
        have hbehind : s.store.memory ≠ current start s.successes := by
          intro hm
          have hle := hl.chain.rank_le rank_raises hvisits
          rw [← hm, ← UInt64.le_iff_toNat_le] at hle
          exact UInt64.not_le.mpr hlt hle
        have hf := hl.newest.resolve_left hbehind
        dsimp only
        rw [hf]
        rfl

theorem Linear.step (hl : Linear http start s) (h : (careful http).step s a t) :
    Linear http start t := by
  obtain ⟨hn, hcare⟩ := h
  cases a with
  | load op readable => exact hl.load hcare hn
  | save command saved => exact hl.save hcare hn
  | broadcast command => exact hl.broadcast hn
  | admin op saved => exact hl.admin hcare hn
  | merge origin ops saved => exact hl.merge hcare hn
  | persist saved => exact hl.persist hcare hn
  | pollRead readable => exact hl.pollRead hn
  | pollAdopt saved => exact hl.pollAdopt hcare hn

theorem Started.linear (h : Started s) : Linear http s.store.memory s := by
  obtain ⟨hf, hp, hl, hu, hs, hsucc⟩ := h
  refine ⟨hsucc ▸ .nil, ?_, by rw [hf]; rfl, .inl (by rw [hsucc, current_nil]), ?_⟩
  · rw [hsucc]
    rintro dc (_ | hd | hd | hd | hd)
    · exact visits_current
    · rw [hf] at hd
      exact Option.some.inj hd ▸ visits_current
    · simp [hl] at hd
    · simp [hu] at hd
    · simp [hs] at hd
  · intro pass hpass
    rw [hp] at hpass
    cases hpass

theorem linear_of_reachable (h : (careful http).Reachable s) : ∃ start, Linear http start s :=
  h.invariant (I := fun s => ∃ start, Linear http start s) (fun _ h => ⟨_, Started.linear h⟩)
    fun _ _ _ ⟨start, hl⟩ h => ⟨start, hl.step h⟩

/-! ## No mutation is lost -/

/-- The configuration still has what the mutation wrote, at every place it wrote to. -/
abbrev Reflected (m : Mutation) (dc : DynamicConfig) : Prop :=
  m.HoldsIn DynamicConfig.view AdminOp.writes dc

/-- A mutation applied to a configuration that has `m` changed a place `m` wrote to. -/
abbrev Overwrites (m' m : Mutation) : Prop :=
  Reflected m m'.before ∧
    ∃ i ∈ m.op.writes, i ∈ m'.op.writes ∧ m'.after.view i ≠ m'.before.view i

theorem Linear.memory_pollAdopt {saved : Bool} {pass : Pass} (hl : Linear http start s)
    (hp : s.polling = some pass) (h : next http s (.pollAdopt saved) = some t) :
    t.store.memory = current start pass.due ∧ t.successes = s.successes := by
  simp only [next, hp, Option.map_some, Option.some.injEq] at h
  subst h
  rcases (hl.pass pass hp).adopted hl with ⟨hnone, hm⟩ | ⟨hsome, hf, -⟩
  · rw [hnone]
    exact ⟨hm, rfl⟩
  · rw [hsome]
    exact ⟨hf, rfl⟩

/-- If everyone starts from the newest configuration, then at the end of a poll pass memory
reflects every mutation that had succeeded when the pass read the file, unless a later one
overwrote it. -/
theorem no_update_lost {saved : Bool} {pass : Pass} (hs : (careful http).Reachable s)
    (hp : s.polling = some pass) (h : (careful http).step s (.pollAdopt saved) t) :
    ∀ m ∈ pass.due,
      Reflected m t.store.memory ∨
        ∃ m', List.Sublist [m, m'] t.successes ∧ Overwrites m' m := by
  obtain ⟨start, hl⟩ := linear_of_reachable hs
  have hpend := hl.pass pass hp
  obtain ⟨hmemory, hsucc⟩ := hl.memory_pollAdopt hp h.1
  intro m hm
  rw [hmemory, hsucc]
  have hchain := hl.chain.of_prefix hpend.due
  apply (hchain.holdsIn_or_changed DynamicConfig.view AdminOp.writes hm).imp_right
  rintro ⟨m', hm', ⟨-, v, hmut⟩, hold, i, hi, hne⟩
  refine ⟨m', hm'.trans hpend.due.sublist, hold, i, hi, ?_, hne⟩
  by_contra hnot
  exact hne (AdminOp.view_mutate hmut hnot)

def startedEmpty : Shared :=
  ⟨⟨⟨5, [], []⟩, some ⟨5, [], []⟩⟩, none, [], [], [], []⟩

def savedAlone : Shared :=
  Transition.run (next plainHttp) startedEmpty
    [.load (.plainAdd "web" "a" "n1" 80) true, .save 0 true, .pollRead true]

theorem no_update_lost_savedAlone :
    (careful plainHttp).Reachable savedAlone ∧
      ∃ pass t, savedAlone.polling = some pass ∧
        (careful plainHttp).step savedAlone (.pollAdopt true) t ∧ pass.due.length = 1 ∧
        ∀ m ∈ pass.due, Reflected m t.store.memory ∨
          ∃ m', List.Sublist [m, m'] t.successes ∧ Overwrites m' m := by
  have hr : (careful plainHttp).Reachable savedAlone := by
    refine ⟨startedEmpty, ⟨rfl, rfl, rfl, rfl, rfl, rfl⟩, ?_⟩
    refine .head (a := SharedAct.load (.plainAdd "web" "a" "n1" 80) true) ⟨rfl, fun _ => rfl⟩ ?_
    refine .head (a := SharedAct.save 0 true) ⟨rfl, ?_⟩ ?_
    · rintro op dc v dc' hcmd - -
      obtain ⟨-, rfl⟩ := Prod.mk.inj (Option.some.inj hcmd)
      refine ⟨⟨by decide, ?_⟩, by decide⟩
      rintro f ⟨⟩
      decide
    · exact .head (a := SharedAct.pollRead true) ⟨rfl, trivial⟩ (.refl _)
  have ht : (careful plainHttp).step savedAlone (.pollAdopt true)
      (Transition.run (next plainHttp) savedAlone [.pollAdopt true]) := by
    refine ⟨rfl, ?_⟩
    rintro pass ⟨⟩ - -
    refine ⟨by decide, ?_⟩
    rintro f ⟨⟩
    decide
  exact ⟨hr, _, _, rfl, ht, rfl, no_update_lost hr rfl ht⟩

/-- A command loads the file, the daemon answers an admin request for service `a`, and the
command saves service `b` into what it loaded. Then a pass reads the file. -/
def savedOverAdmin : Shared :=
  Transition.run (next plainHttp) startedEmpty
    [.load (.plainAdd "web" "b" "n1" 80) true, .admin (.plainAdd "web" "a" "n1" 80) true,
      .save 0 true, .broadcast 0, .pollRead true]

/-- The file has the version of memory and other services, so the pass takes it for a manual
edit, and the daemon's own change is gone. -/
theorem lost_savedOverAdmin :
    (system plainHttp).Reachable savedOverAdmin ∧
      ∃ pass t, savedOverAdmin.polling = some pass ∧
        (system plainHttp).step savedOverAdmin (.pollAdopt true) t ∧
        ∃ m ∈ pass.due, m.op = .plainAdd "web" "a" "n1" 80 ∧
          ¬ Reflected m t.store.memory ∧ ∀ m' ∈ t.successes, ¬ Overwrites m' m := by
  refine ⟨⟨startedEmpty, ?_, Transition.reaches_run (by decide)⟩, _, _, rfl, rfl, ?_⟩
  · exact ⟨rfl, rfl, rfl, rfl, rfl, rfl⟩
  · decide

end Shared

end Stouter
