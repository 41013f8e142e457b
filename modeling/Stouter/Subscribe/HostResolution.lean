import Stouter.Text.Basic
import Stouter.Config.Validate
import Stouter.Subscribe.Reconcile

/-! # Resolving a host to a service

The HTTP listener takes the first visible service that the host names, and
otherwise the first that lists it as a domain. Both comparisons ignore case,
and domains also their trailing dots, while `validate` compares domains as they
are written. What a host resolves to is therefore independent of the order of
groups and services only if names and domains are apart in the wider sense.
-/

namespace Stouter

namespace DynamicConfig

variable {dc dc' : DynamicConfig} {filter : Option SubscribeFilter} {s t : Service}

/-- The filter, if there is one, lets the service through. -/
def visibleIn (filter : Option SubscribeFilter) (group : String) (svc : Service) : Bool :=
  filter.all fun f => f.isEmpty || f.allows group svc.name

def visible (dc : DynamicConfig) (filter : Option SubscribeFilter) : List Service :=
  dc.serviceGroups.flatMap fun g => g.services.filter (visibleIn filter g.name)

def namedBy (host : String) (svc : Service) : Bool := Text.eqIgnoreCase svc.name host

def servesDomain (host : String) (svc : Service) : Bool :=
  svc.domains.any fun d => Text.eqIgnoreCase (Text.trimEnd '.' d) host

/-- The service the host names: a service name first, else a service whose `domains` include it. -/
def resolveService (host : String) (dc : DynamicConfig) (filter : Option SubscribeFilter) :
    Option String :=
  match (dc.visible filter).find? (namedBy host) with
  | some svc => some svc.name
  | none => ((dc.visible filter).find? (servesDomain host)).map (·.name)

/-! ## Orders of groups and services -/

def Shuffled (g g' : ServiceGroup) : Prop := g.name = g'.name ∧ g.services.Perm g'.services

/-- The groups in any order, and the services of each in any order. -/
def Reordered (dc dc' : DynamicConfig) : Prop :=
  dc.version = dc'.version ∧ dc.routes = dc'.routes ∧
    ∃ groups, dc.serviceGroups.Perm groups ∧ List.Forall₂ Shuffled groups dc'.serviceGroups

theorem perm_visible (h : Reordered dc dc') (filter : Option SubscribeFilter) :
    (dc.visible filter).Perm (dc'.visible filter) := by
  obtain ⟨-, -, groups, hperm, hall⟩ := h
  refine (hperm.flatMap_right _).trans ?_
  unfold visible
  clear hperm
  generalize dc'.serviceGroups = groups' at hall
  induction hall with
  | nil => exact .refl _
  | cons hg _ ih =>
    obtain ⟨hn, hs⟩ := hg
    simp only [List.flatMap_cons, hn]
    exact (hs.filter _).append ih

theorem mem_visible (h : s ∈ dc.visible filter) : s ∈ dc.instances := by
  obtain ⟨g, hg, hs⟩ := List.mem_flatMap.mp h
  exact List.mem_flatMap.mpr ⟨g, hg, (List.mem_filter.mp hs).1⟩

theorem exists_reordered_front (hs : s ∈ dc.instances) :
    ∃ dc' group rest groups, Reordered dc dc' ∧
      dc'.serviceGroups = ⟨group, s :: rest⟩ :: groups := by
  obtain ⟨g, hg, hsg⟩ := List.mem_flatMap.mp hs
  have hgroups := List.perm_cons_erase hg
  have hservices := List.perm_cons_erase hsg
  refine ⟨{ dc with
    serviceGroups := ⟨g.name, s :: g.services.erase s⟩ :: dc.serviceGroups.erase g }, _, _, _,
    ⟨rfl, rfl, _, hgroups, .cons ⟨rfl, hservices⟩ ?_⟩, rfl⟩
  exact List.forall₂_same.mpr fun g _ => ⟨rfl, .refl _⟩

theorem visible_front {group : String} {rest : List Service} {groups : List ServiceGroup}
    (h : dc.serviceGroups = ⟨group, s :: rest⟩ :: groups)
    (hv : visibleIn filter group s = true) : ∃ others, dc.visible filter = s :: others := by
  simp only [visible, h, List.flatMap_cons, List.filter_cons, hv, if_true, List.cons_append]
  exact ⟨_, rfl⟩

/-! ## When the order does not matter -/

/-- The host resolves to the same service in every order of the configuration. -/
def Unambiguous (dc : DynamicConfig) : Prop :=
  ∀ host filter dc', Reordered dc dc' →
    resolveService host dc' filter = resolveService host dc filter

/-- Services have the same name or names that differ by more than case. -/
def NamesApart (dc : DynamicConfig) : Prop :=
  ∀ s ∈ dc.instances, ∀ t ∈ dc.instances, Text.eqIgnoreCase s.name t.name = true → s.name = t.name

/-- Domains of two services differ by more than case and trailing dots, unless they are the name of
one of the two. -/
def DomainsApart (dc : DynamicConfig) : Prop :=
  ∀ s ∈ dc.instances, ∀ t ∈ dc.instances, ∀ d ∈ s.domains, ∀ e ∈ t.domains,
    Text.eqIgnoreCase (Text.trimEnd '.' d) (Text.trimEnd '.' e) = true →
      s.name = t.name ∨ namedBy (Text.trimEnd '.' d) s = true ∨
        namedBy (Text.trimEnd '.' d) t = true

theorem unambiguous_of_apart (hn : NamesApart dc) (hd : DomainsApart dc) : Unambiguous dc := by
  intro host filter dc' h
  have hperm := perm_visible h filter
  have hnames : ((dc.visible filter).find? (namedBy host)).map (·.name) =
      ((dc'.visible filter).find? (namedBy host)).map (·.name) := by
    refine List.map_find?_perm hperm fun s hs t ht hsh hth => ?_
    exact hn s (mem_visible hs) t (mem_visible ht)
      (Text.eqIgnoreCase_trans hsh (Text.eqIgnoreCase_symm hth))
  unfold resolveService
  cases hf : (dc.visible filter).find? (namedBy host) with
  | some s =>
    rw [hf, Option.map_some] at hnames
    obtain ⟨t, ht, hst⟩ := Option.map_eq_some_iff.mp hnames.symm
    simp only [ht, hst]
  | none =>
    rw [hf, Option.map_none, eq_comm, Option.map_eq_none_iff] at hnames
    simp only [hnames]
    -- No visible service is named by the host, so the exceptions of `DomainsApart` do not arise.
    rw [List.find?_eq_none] at hf
    refine (List.map_find?_perm hperm fun s hs t ht hsh hth => ?_).symm
    obtain ⟨d, hds, hdh⟩ := List.any_eq_true.mp hsh
    obtain ⟨e, het, heh⟩ := List.any_eq_true.mp hth
    have hde := Text.eqIgnoreCase_trans hdh (Text.eqIgnoreCase_symm heh)
    rcases hd s (mem_visible hs) t (mem_visible ht) d hds e het hde with h | h | h
    · exact h
    · exact absurd (Text.eqIgnoreCase_trans h hdh) (hf s hs)
    · exact absurd (Text.eqIgnoreCase_trans h hdh) (hf t ht)

theorem Unambiguous.namesApart (h : Unambiguous dc) : NamesApart dc := by
  have hfirst : ∀ host, ∀ s ∈ dc.instances, namedBy host s = true →
      resolveService host dc none = some s.name := by
    intro host s hs hname
    obtain ⟨dc', group, rest, groups, hre, hg⟩ := exists_reordered_front hs
    obtain ⟨others, hv⟩ := visible_front hg (show visibleIn none group s = true from rfl)
    rw [← h host none dc' hre]
    simp [resolveService, hv, hname]
  intro s hs t ht hst
  have hsname := hfirst t.name s hs hst
  rw [hfirst t.name t ht (Text.eqIgnoreCase_refl _)] at hsname
  exact (Option.some.inj hsname).symm

theorem Unambiguous.domainsApart (h : Unambiguous dc) : DomainsApart dc := by
  intro s hs t ht d hds e het hde
  by_contra hcon
  push Not at hcon
  obtain ⟨hne, hsn, htn⟩ := hcon
  -- With only these two names visible the host is nobody's name.
  let both : Option SubscribeFilter := some ⟨[], [s.name, t.name]⟩
  have hvis : ∀ group svc, visibleIn both group svc = true ↔
      svc.name = s.name ∨ svc.name = t.name := by
    intro group svc
    simp [both, visibleIn, SubscribeFilter.isEmpty, SubscribeFilter.allows]
  have hfirst : ∀ u ∈ dc.instances, (u.name = s.name ∨ u.name = t.name) →
      servesDomain (Text.trimEnd '.' d) u = true →
      resolveService (Text.trimEnd '.' d) dc both = some u.name := by
    intro u hu hname hserves
    obtain ⟨dc', group, rest, groups, hre, hg⟩ := exists_reordered_front hu
    obtain ⟨others, hv⟩ := visible_front hg ((hvis group u).mpr hname)
    have hnone : (dc'.visible both).find? (namedBy (Text.trimEnd '.' d)) = none := by
      rw [List.find?_eq_none]
      intro x hx hxn
      obtain ⟨g, -, hxg⟩ := List.mem_flatMap.mp hx
      rcases (hvis g.name x).mp (List.mem_filter.mp hxg).2 with hx' | hx'
      · exact hsn (by simpa only [namedBy, hx'] using hxn)
      · exact htn (by simpa only [namedBy, hx'] using hxn)
    rw [← h _ both dc' hre]
    simp only [resolveService, hnone]
    simp [hv, hserves]
  have hsd : servesDomain (Text.trimEnd '.' d) s = true :=
    List.any_eq_true.mpr ⟨d, hds, Text.eqIgnoreCase_refl _⟩
  have htd : servesDomain (Text.trimEnd '.' d) t = true :=
    List.any_eq_true.mpr ⟨e, het, Text.eqIgnoreCase_symm hde⟩
  have hsname := hfirst s hs (.inl rfl) hsd
  rw [hfirst t ht (.inr rfl) htd] at hsname
  exact hne (Option.some.inj hsname).symm

/-- Hosts resolve independently of the order exactly when names and domains are apart as the
listener compares them. -/
theorem unambiguous_iff_apart (dc : DynamicConfig) :
    Unambiguous dc ↔ NamesApart dc ∧ DomainsApart dc :=
  ⟨fun h => ⟨h.namesApart, h.domainsApart⟩, fun h => unambiguous_of_apart h.1 h.2⟩

/-- The text is written as the listener compares it. -/
def Normalised (text : String) : Prop :=
  Text.lower text = text ∧ Text.trimEnd '.' text = text

theorem Normalised.eq {a b : String} (ha : Normalised a) (hb : Normalised b)
    (h : Text.eqIgnoreCase a b = true) : a = b := by
  simpa [Text.eqIgnoreCase, ha.1, hb.1] using h

/-- On texts in normal form the comparisons of `validate` are those of the listener. -/
theorem unambiguous_of_normalised {http : HttpCrate} {cfg : Config}
    (hv : cfg.validate http = .ok ())
    (hnames : ∀ s ∈ cfg.dynamicConfig.instances, Normalised s.name)
    (hdomains : ∀ s ∈ cfg.dynamicConfig.instances, ∀ d ∈ s.domains, Normalised d) :
    Unambiguous cfg.dynamicConfig := by
  obtain ⟨_, -, hc⟩ := ((Config.validate_ok_iff http cfg).mp hv).coupled
  apply unambiguous_of_apart
  · intro s hs t ht h
    exact (hnames s hs).eq (hnames t ht) h
  · intro s hs t ht d hd e he h
    have hds := hdomains s hs d hd
    have het := hdomains t ht e he
    rw [hds.2, het.2] at h
    obtain rfl := hds.eq het h
    exact .inl (hc.domains s hs t ht d hd he)

def shop (name domain : String) : Service :=
  ⟨name, "n1", 3000, [domain], 1, none, .http, none, none, ∅, ∅, none⟩

def shops (services : List Service) : Config :=
  { Config.default with dynamicConfig := ⟨1, [⟨"web", services⟩], []⟩ }

/-- Two domains that differ in one capital letter: both orders are valid, and the host goes to
whichever service is listed first. -/
theorem shops_ambiguous :
    let cfg := shops [shop "shop" "shop.example", shop "store" "Shop.example"]
    let swapped := shops [shop "store" "Shop.example", shop "shop" "shop.example"]
    cfg.validate plainHttp = .ok () ∧ swapped.validate plainHttp = .ok () ∧
      Reordered cfg.dynamicConfig swapped.dynamicConfig ∧
      resolveService "shop.example" cfg.dynamicConfig none = some "shop" ∧
      resolveService "shop.example" swapped.dynamicConfig none = some "store" := by
  refine ⟨by decide, by decide, ⟨rfl, rfl, _, .refl _, .cons ⟨rfl, .swap _ _ _⟩ .nil⟩, ?_, ?_⟩
  · decide
  · decide

end DynamicConfig

end Stouter
