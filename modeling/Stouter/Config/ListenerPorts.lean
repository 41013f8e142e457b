import Stouter.Config.Validate

/-! # Loopback ports

The ports a subscriber opens on loopback: the REST API, the host-routing HTTP
listener, and the fixed local port of each service that has one. `validate`
collects them in one map of owners, but the insertion of the HTTP listener
drops the owner it replaces.
-/

namespace Stouter

namespace Config

variable {http : HttpCrate} {cfg : Config} {reserved : HashMap UInt16 String} {p : UInt16}

/-- The port of `httpListen`, when its address is loopback or unspecified. -/
def httpPort (cfg : Config) : Option UInt16 :=
  match cfg.httpListen.bind SocketAddr.parse with
  | none => none
  | some addr => if addr.ip.isLoopback || addr.ip.isUnspecified then some addr.port else none

inductive Listener
  | api
  | http
  | service (name : String)
  deriving DecidableEq, Repr

/-- The loopback ports the daemon will open. -/
inductive Opens (cfg : Config) : Listener → UInt16 → Prop where

  | api : Opens cfg .api cfg.apiPortOr

  | http {p : UInt16} : cfg.httpPort = some p → Opens cfg .http p

  | service {name : String} {p : UInt16} : AsksFor cfg.dynamicConfig name p →
      Opens cfg (.service name) p

/-- No two listeners share a port, fixed ports are non-zero, and every service has one port. -/
structure PortsClear (cfg : Config) : Prop where
  distinct : ∀ a b p, Opens cfg a p → Opens cfg b p → a = b
  nonzero : ∀ name p, Opens cfg (.service name) p → p ≠ 0
  agree : ∀ name p q, Opens cfg (.service name) p → Opens cfg (.service name) q → p = q
  resolves : ∀ name, ∃ port, cfg.dynamicConfig.localPortFor name = .ok port

theorem mem_reservedPorts (hs : cfg.subscribes = true) (h : cfg.reservedPorts = .ok reserved) :
    p ∈ reserved ↔ p = cfg.apiPortOr ∨ cfg.httpPort = some p := by
  simp only [reservedPorts, hs, if_true, Bool.not_true, Bool.false_eq_true, if_false] at h
  unfold httpPort
  cases hl : cfg.httpListen with
  | none =>
    simp only [hl] at h
    obtain rfl := Except.ok.inj h
    rw [AList.mem_insert]
    simp
  | some listen =>
    simp only [hl] at h
    cases ha : SocketAddr.parse listen with
    | none => simp [ha] at h
    | some addr =>
      simp only [ha] at h
      obtain rfl := Except.ok.inj h
      dsimp only [Option.bind_some]
      rw [ha]
      dsimp only
      split_ifs with hip
      · rw [AList.mem_insert, AList.mem_insert, Option.some.injEq]
        simp only [AList.notMem_empty, or_false]
        rw [or_comm, eq_comm (a := p) (b := addr.port)]
      · rw [AList.mem_insert]
        simp

/-- The owner map of `validate` keeps every fixed port clear of the other listeners. -/
theorem not_reserved_of_asksFor {name : String} (hv : Valid http cfg) (hs : cfg.subscribes = true)
    (hp : AsksFor cfg.dynamicConfig name p) :
    p ≠ 0 ∧ p ≠ cfg.apiPortOr ∧ cfg.httpPort ≠ some p := by
  obtain ⟨reserved, hres, hc⟩ := hv.coupled
  obtain ⟨s, hmem, -, hport⟩ := hp
  obtain ⟨h0, hfree⟩ := hc.free s hmem p hport
  rw [mem_reservedPorts hs hres, not_or] at hfree
  exact ⟨h0, hfree⟩

theorem asksFor_iff_of_valid {a b : String} {q : UInt16} (hv : Valid http cfg)
    (ha : AsksFor cfg.dynamicConfig a p) (hb : AsksFor cfg.dynamicConfig b q) :
    a = b ↔ p = q := by
  obtain ⟨reserved, -, hc⟩ := hv.coupled
  obtain ⟨s, hs, rfl, hp⟩ := ha
  obtain ⟨t, ht, rfl, hq⟩ := hb
  exact hc.ports s hs t ht p q hp hq

theorem opens_distinct {a b : Listener} (hv : Valid http cfg) (hs : cfg.subscribes = true)
    (hne : cfg.httpPort ≠ some cfg.apiPortOr) (ha : Opens cfg a p) (hb : Opens cfg b p) :
    a = b := by
  cases ha with
  | api =>
    cases hb with
    | api => rfl
    | http h => exact absurd h hne
    | service h => exact absurd rfl (not_reserved_of_asksFor hv hs h).2.1
  | http hl =>
    cases hb with
    | api => exact absurd hl hne
    | http => rfl
    | service h => exact absurd hl (not_reserved_of_asksFor hv hs h).2.2
  | service hl =>
    cases hb with
    | api => exact absurd rfl (not_reserved_of_asksFor hv hs hl).2.1
    | http h => exact absurd h (not_reserved_of_asksFor hv hs hl).2.2
    | service h => rw [(asksFor_iff_of_valid hv hl h).mpr rfl]

/-- The listeners of a validated subscriber share no port exactly when the REST API and the HTTP
listener do not: the one pair of owners `validate` does not compare. -/
theorem portsClear_iff_of_validate (hv : cfg.validate http = .ok ())
    (hs : cfg.subscribes = true) :
    PortsClear cfg ↔ cfg.httpPort ≠ some cfg.apiPortOr := by
  rw [validate_ok_iff] at hv
  constructor
  · intro h hsame
    have hab := h.distinct .api .http cfg.apiPortOr .api (.http hsame)
    cases hab
  · intro hne
    have hagree : ∀ name p q, AsksFor cfg.dynamicConfig name p →
        AsksFor cfg.dynamicConfig name q → p = q := fun name p q hp hq =>
      (asksFor_iff_of_valid hv hp hq).mp rfl
    refine ⟨fun a b p => opens_distinct hv hs hne, ?_, ?_, fun name => ?_⟩
    · intro name p hp
      cases hp with
      | service h => exact (not_reserved_of_asksFor hv hs h).1
    · intro name p q hp hq
      cases hp with
      | service hp =>
        cases hq with
        | service hq => exact hagree name p q hp hq
    · exact localPortFor_isOk.mpr (hagree name)

def listening (listen : String) : Config :=
  { Config.default with
    mode := .subscribe
    nodeId := "me"
    httpListen := some listen
    dynamicConfig := ⟨1, [⟨"web",
      [⟨"api", "n1", 9000, [], 1, none, .http, none, none, ∅, ∅, some 7000⟩]⟩], []⟩ }

theorem portsClear_listening :
    (listening "127.0.0.1:15001").validate plainHttp = .ok () ∧
      PortsClear (listening "127.0.0.1:15001") := by
  have hv : (listening "127.0.0.1:15001").validate plainHttp = .ok () := by decide
  exact ⟨hv, (portsClear_iff_of_validate hv (by decide)).mpr (by decide)⟩

/-- The port of the REST API is accepted for the HTTP listener. -/
theorem listening_on_apiPort :
    (listening "127.0.0.1:5381").subscribes = true ∧
      (listening "127.0.0.1:5381").validate plainHttp = .ok () ∧
      ¬ PortsClear (listening "127.0.0.1:5381") := by
  refine ⟨by decide, by decide, fun h => ?_⟩
  have hab := h.distinct .api .http 5381 .api (.http (by decide))
  cases hab

end Config

end Stouter
