import Abacus.Settings.Values

/-!
# Settings put over settings

Settings with some entries put over them are the settings that are made anew of all entries,
old and changed. Values may be of any kind and may be read in any way, of which only this is
asked: what settings hold is read again unchanged. So only the changes matter. That each field
is read from its own entry alone lies in what a reader is.

Results:
1. `update_merge`: entries merged into entries that make settings change those settings.
2. `override_eq_update`: overriding settings changes them by the entries that have a value.
3. `mem_violations`: an entry is refused for itself, whatever the other entries are.
4. `override_laws`: when overriding fails and what it then tells, what it leaves alone and what
   it changes, and that two overrides in a row are one.
-/

namespace Abacus

/-! ## 1. Entries -/

namespace Entries

/-- Each name stands in one entry at most. -/
def Distinct {ν : Type} (entries : Entries ν) : Prop := (entries.map Prod.fst).Nodup

instance {ν : Type} (entries : Entries ν) : Decidable entries.Distinct :=
  inferInstanceAs (Decidable (entries.map Prod.fst).Nodup)

namespace OverridesLemmas

variable {ν : Type} {entries changes : Entries ν} {name : String} {v : ν} {entry : String × ν}

theorem lookup_cons_eq (entry : String × ν) (entries : Entries ν) (n : String) :
    (entry :: entries).lookup n = if n = entry.1 then some entry.2 else entries.lookup n := by
  rw [List.lookup_cons]
  by_cases hn : n = entry.1
  · simp [hn]
  · simp [hn, beq_eq_false_iff_ne.mpr hn]

theorem lookup_put (name : String) (v : ν) (entries : Entries ν) (n : String) :
    (put name v entries).lookup n = if n = name then some v else entries.lookup n := by
  induction entries with
  | nil => exact lookup_cons_eq _ _ n
  | cons entry entries ih =>
    rw [put]
    split
    · next heq =>
      rw [lookup_cons_eq, lookup_cons_eq, heq]
      split <;> rfl
    · next hne =>
      rw [lookup_cons_eq, lookup_cons_eq, ih]
      by_cases hn : n = name
      · rw [hn, if_neg (Ne.symm hne), if_pos rfl, if_pos rfl]
      · rw [if_neg hn, if_neg hn]

theorem map_fst_put (name : String) (v : ν) (entries : Entries ν) :
    (put name v entries).map Prod.fst =
      if name ∈ entries.map Prod.fst then entries.map Prod.fst
      else entries.map Prod.fst ++ [name] := by
  induction entries with
  | nil => rfl
  | cons entry entries ih =>
    rw [put]
    split
    · next heq => simp [heq]
    · next hne =>
      have hiff : name ∈ (entry :: entries).map Prod.fst ↔ name ∈ entries.map Prod.fst := by
        simp [Ne.symm hne]
      rw [List.map_cons, ih]
      simp only [hiff]
      split <;> rfl

theorem mem_put (h : entry ∈ put name v entries) : entry = (name, v) ∨ entry ∈ entries := by
  induction entries with
  | nil => exact .inl (List.mem_singleton.mp h)
  | cons first entries ih =>
    rw [put] at h
    split at h
    · rcases List.mem_cons.mp h with h | h
      · exact .inl h
      · exact .inr (List.mem_cons_of_mem first h)
    · rcases List.mem_cons.mp h with rfl | h
      · exact .inr List.mem_cons_self
      · exact (ih h).imp_right (List.mem_cons_of_mem first)

theorem lookup_eq_none (h : name ∉ entries.map Prod.fst) : entries.lookup name = none := by
  rw [List.lookup_eq_none_iff]
  intro entry hentry
  have hne : name ≠ entry.1 := fun heq => h (List.mem_map.mpr ⟨entry, hentry, heq.symm⟩)
  simp [hne]

theorem lookup_eq_some_iff (h : entries.Distinct) :
    entries.lookup name = some v ↔ (name, v) ∈ entries := by
  induction entries with
  | nil => simp
  | cons entry entries ih =>
    obtain ⟨hfresh, hrest⟩ := List.nodup_cons.mp h
    rw [lookup_cons_eq, List.mem_cons]
    by_cases hn : name = entry.1
    · have hnot : (entry.1, v) ∉ entries := fun hmem =>
        hfresh (List.mem_map.mpr ⟨_, hmem, rfl⟩)
      simp [hn, hnot, Prod.ext_iff, eq_comm]
    · have hne : (name, v) ≠ entry := fun heq => hn (congrArg Prod.fst heq)
      simp [hn, hne, ih hrest]

end OverridesLemmas

open OverridesLemmas

variable {ν : Type}

/-- Of two entries with one name the one that is put over the other counts. -/
theorem lookup_merge {entries changes : Entries ν} (h : changes.Distinct) (name : String) :
    (entries.merge changes).lookup name = (changes.lookup name).or (entries.lookup name) := by
  induction changes generalizing entries with
  | nil => rfl
  | cons change changes ih =>
    obtain ⟨hfresh, hrest⟩ := List.nodup_cons.mp h
    show (merge (entries.put change.1 change.2) changes).lookup name = _
    rw [ih hrest, lookup_put, lookup_cons_eq]
    by_cases hn : name = change.1
    · rw [hn, lookup_eq_none hfresh, if_pos rfl, if_pos rfl]
      rfl
    · rw [if_neg hn, if_neg hn]

theorem distinct_put {entries : Entries ν} (h : entries.Distinct) (name : String) (v : ν) :
    (put name v entries).Distinct := by
  rw [Distinct, map_fst_put]
  split
  · exact h
  · next hfresh =>
    refine List.nodup_append.mpr ⟨h, by simp, fun n hn m hm heq => hfresh ?_⟩
    rwa [← List.mem_singleton.mp hm, ← heq]

theorem distinct_merge {entries : Entries ν} (h : entries.Distinct) (changes : Entries ν) :
    (entries.merge changes).Distinct := by
  induction changes generalizing entries with
  | nil => exact h
  | cons change changes ih => exact ih (distinct_put h change.1 change.2)

theorem mem_merge {entries changes : Entries ν} {entry : String × ν}
    (h : entry ∈ entries.merge changes) : entry ∈ entries ∨ entry ∈ changes := by
  induction changes generalizing entries with
  | nil => exact .inl h
  | cons change changes ih =>
    rcases ih h with h | h
    · rcases mem_put h with rfl | h
      · exact .inr List.mem_cons_self
      · exact .inl h
    · exact .inr (List.mem_cons_of_mem change h)

end Entries

/-! ## 2. Fields -/

namespace ValueReader

open Settings Entries Entries.OverridesLemmas

variable {ν ε : Type}

/-- Everything that is wrong with the entries that change `base`. -/
def violations (r : ValueReader ν ε) (base : Settings) (entries : Entries ν) :
    List (Violation ε) :=
  violation "prompt" (field entries "prompt" base.prompt r.toText) ++
  violation "max_depth"
    (field entries "max_depth" ⟨base.maxDepth, base.one_le_maxDepth⟩ r.toDepth) ++
  violation "show_tokens" (field entries "show_tokens" base.showTokens r.toFlag) ++
  violation "show_tree" (field entries "show_tree" base.showTree r.toFlag) ++
  r.strangers entries

/-- Settings are what the entries make of `base`: each field is read on its own, and every name
is that of a field. -/
structure Reads (r : ValueReader ν ε) (base : Settings) (entries : Entries ν) (s : Settings) :
    Prop where
  prompt : field entries "prompt" base.prompt r.toText = .ok s.prompt
  maxDepth : field entries "max_depth" ⟨base.maxDepth, base.one_le_maxDepth⟩ r.toDepth =
    .ok ⟨s.maxDepth, s.one_le_maxDepth⟩
  showTokens : field entries "show_tokens" base.showTokens r.toFlag = .ok s.showTokens
  showTree : field entries "show_tree" base.showTree r.toFlag = .ok s.showTree
  strangers : r.strangers entries = []

namespace OverridesLemmas

variable {r : ValueReader ν ε} {base s : Settings} {entries changes : Entries ν} {α : Type}
  {name : String} {fallback new : α} {read : ν → Except ε α} {w : Violation ε}

theorem mem_present {v : ν} :
    (name, v) ∈ r.present entries ↔ (name, v) ∈ entries ∧ r.isNull v = false := by
  simp [present]

theorem distinct_present (h : entries.Distinct) : (r.present entries).Distinct :=
  List.Nodup.sublist (List.filter_sublist.map Prod.fst) h

/-- Entries with a value, merged, have all a value. -/
theorem present_merge (entries changes : Entries ν) :
    r.present ((r.present entries).merge (r.present changes)) =
      (r.present entries).merge (r.present changes) := by
  refine List.filter_eq_self.mpr fun entry hentry => ?_
  rcases mem_merge hentry with h | h <;> exact (List.mem_filter.mp h).2

theorem update_cases (r : ValueReader ν ε) (base : Settings) (entries : Entries ν) :
    (∃ s, r.update base entries = .ok s ∧ r.Reads base entries s ∧
      r.violations base entries = []) ∨
      r.update base entries = .error (r.violations base entries) ∧
        r.violations base entries ≠ [] := by
  unfold update violations
  dsimp only
  cases hprompt : field entries "prompt" base.prompt r.toText <;>
    cases hdepth : field entries "max_depth" ⟨base.maxDepth, base.one_le_maxDepth⟩ r.toDepth <;>
    cases htokens : field entries "show_tokens" base.showTokens r.toFlag <;>
    cases htree : field entries "show_tree" base.showTree r.toFlag <;>
    cases hstrangers : r.strangers entries
  case ok.ok.ok.ok.nil prompt depth showTokens showTree =>
    exact .inl ⟨_, rfl, ⟨hprompt, hdepth, htokens, htree, hstrangers⟩, rfl⟩
  all_goals exact .inr ⟨rfl, by simp [violation]⟩

theorem reads_of_update (h : r.update base entries = .ok s) : r.Reads base entries s := by
  obtain ⟨s', hupdate, hreads, -⟩ | ⟨hupdate, -⟩ := update_cases r base entries
  · rw [hupdate] at h
    cases h
    exact hreads
  · rw [hupdate] at h
    cases h

theorem field_merge (hchanges : changes.Distinct) (h : field entries name fallback read = .ok new) :
    field (entries.merge changes) name fallback read = field changes name new read := by
  unfold field at h ⊢
  rw [lookup_merge hchanges]
  cases changes.lookup name with
  | none => exact h
  | some v => rfl

theorem strangers_eq (r : ValueReader ν ε) (entries : Entries ν) :
    r.strangers entries =
      ((entries.map Prod.fst).filter fun n => !names.contains n).map (⟨·, r.unknownName⟩) := by
  rw [List.filter_map, List.map_map]
  rfl

theorem strangers_append (r : ValueReader ν ε) (entries more : Entries ν) :
    r.strangers (entries ++ more) = r.strangers entries ++ r.strangers more := by
  rw [strangers, List.filter_append, List.map_append]
  rfl

theorem mem_strangers :
    w ∈ r.strangers entries ↔
      w.name ∉ names ∧ w.objection = r.unknownName ∧ ∃ v, (w.name, v) ∈ entries := by
  constructor
  · intro h
    obtain ⟨⟨n, v⟩, hmem, rfl⟩ := List.mem_map.mp h
    obtain ⟨hmem, hunknown⟩ := List.mem_filter.mp hmem
    exact ⟨by simpa using hunknown, rfl, v, hmem⟩
  · obtain ⟨n, objection⟩ := w
    rintro ⟨hunknown, rfl, v, hmem⟩
    exact List.mem_map.mpr ⟨(n, v), List.mem_filter.mpr ⟨hmem, by simpa using hunknown⟩, rfl⟩

theorem strangers_of_known (h : name ∈ names) (v : ν) : r.strangers [(name, v)] = [] := by
  simp [strangers, h]

theorem strangers_put (h : name ∈ entries.map Prod.fst → name ∈ names) (v : ν) :
    r.strangers (entries.put name v) = r.strangers entries ++ r.strangers [(name, v)] := by
  rw [strangers_eq, map_fst_put]
  split
  · next hmem =>
    rw [strangers_of_known (h hmem), List.append_nil, strangers_eq]
  · rw [List.filter_append, List.map_append, ← strangers_eq]
    exact congrArg _ (strangers_eq r [(name, v)]).symm

/-- What is put over other entries adds its own strangers, if all names that stand on both
sides are those of fields. -/
theorem strangers_merge (hchanges : changes.Distinct)
    (h : ∀ n ∈ entries.map Prod.fst, n ∈ changes.map Prod.fst → n ∈ names) :
    r.strangers (entries.merge changes) = r.strangers entries ++ r.strangers changes := by
  induction changes generalizing entries with
  | nil => exact (List.append_nil _).symm
  | cons change changes ih =>
    obtain ⟨hfresh, hrest⟩ := List.nodup_cons.mp hchanges
    have hshared : ∀ n ∈ (entries.put change.1 change.2).map Prod.fst,
        n ∈ changes.map Prod.fst → n ∈ names := by
      intro n hn hlater
      rw [map_fst_put] at hn
      split at hn
      · exact h n hn (List.mem_cons_of_mem _ hlater)
      · rcases List.mem_append.mp hn with hn | hn
        · exact h n hn (List.mem_cons_of_mem _ hlater)
        · rw [List.mem_singleton.mp hn] at hlater
          exact absurd hlater hfresh
    show r.strangers (merge (entries.put change.1 change.2) changes) = _
    rw [ih hrest hshared, strangers_put fun hmem => h _ hmem List.mem_cons_self,
      List.append_assoc, ← strangers_append]
    rfl

theorem known_of_strangers (h : r.strangers entries = []) (hname : name ∈ entries.map Prod.fst) :
    name ∈ names := by
  obtain ⟨⟨name, v⟩, hmem, rfl⟩ := List.mem_map.mp hname
  refine Decidable.byContradiction fun hunknown => ?_
  have hstranger : ⟨name, r.unknownName⟩ ∈ r.strangers entries :=
    mem_strangers.mpr ⟨hunknown, rfl, v, hmem⟩
  rw [h] at hstranger
  cases hstranger

end OverridesLemmas

open OverridesLemmas

variable {r : ValueReader ν ε}

/-- Entries merged into those that make settings are changes of these settings. -/
theorem update_merge {base s : Settings} {entries changes : Entries ν}
    (h : r.update base entries = .ok s) (hchanges : changes.Distinct) :
    r.update base (entries.merge changes) = r.update s changes := by
  have hreads := reads_of_update h
  unfold update
  rw [field_merge hchanges hreads.prompt, field_merge hchanges hreads.maxDepth,
    field_merge hchanges hreads.showTokens, field_merge hchanges hreads.showTree,
    strangers_merge hchanges fun _ hname _ => known_of_strangers hreads.strangers hname,
    hreads.strangers, List.nil_append]

/-- Overriding settings changes them by the entries that have a value. -/
theorem override_eq_update (hr : r.ReadsBack) (s : Settings) {overrides : Entries ν}
    (h : overrides.Distinct) : r.override s overrides = r.update s (r.present overrides) := by
  unfold override
  split
  · next hnone =>
    rw [hnone]
    rfl
  · exact update_merge (ofEntries_toEntries hr s) (distinct_present h)

/-! ## 3. What is refused -/

/-- An entry with a name and a value that settings do not take, and the objection to it. -/
inductive Refused (r : ValueReader ν ε) : String → ν → ε → Prop where
  | prompt {v : ν} {objection : ε} (h : r.toText v = .error objection) :
    Refused r "prompt" v objection
  | maxDepth {v : ν} {objection : ε} (h : r.toDepth v = .error objection) :
    Refused r "max_depth" v objection
  | showTokens {v : ν} {objection : ε} (h : r.toFlag v = .error objection) :
    Refused r "show_tokens" v objection
  | showTree {v : ν} {objection : ε} (h : r.toFlag v = .error objection) :
    Refused r "show_tree" v objection
  | unknown {name : String} {v : ν} (h : name ∉ names) : Refused r name v r.unknownName

namespace OverridesLemmas

variable {base s : Settings} {entries : Entries ν} {α : Type} {name : String} {fallback new : α}
  {read : ν → Except ε α} {w : Violation ε}

theorem mem_violation {outcome : Except ε α} :
    w ∈ violation name outcome ↔ w.name = name ∧ outcome = .error w.objection := by
  obtain ⟨n, objection⟩ := w
  cases outcome with
  | ok new => simp [violation]
  | error o => simp [violation, eq_comm]

theorem field_eq_error {objection : ε} (h : entries.Distinct) :
    field entries name fallback read = .error objection ↔
      ∃ v, (name, v) ∈ entries ∧ read v = .error objection := by
  unfold field
  cases hlookup : entries.lookup name with
  | none =>
    refine ⟨nofun, fun ⟨v, hmem, _⟩ => ?_⟩
    rw [(lookup_eq_some_iff h).mpr hmem] at hlookup
    cases hlookup
  | some v =>
    refine ⟨fun hread => ⟨v, (lookup_eq_some_iff h).mp hlookup, hread⟩, fun ⟨v', hmem, hread⟩ => ?_⟩
    rw [(lookup_eq_some_iff h).mpr hmem] at hlookup
    cases hlookup
    exact hread

theorem mem_violation_field (h : entries.Distinct) :
    w ∈ violation name (field entries name fallback read) ↔
      w.name = name ∧ ∃ v, (name, v) ∈ entries ∧ read v = .error w.objection :=
  mem_violation.trans (and_congr_right fun _ => field_eq_error h)

end OverridesLemmas

/-- The violations are the entries that are refused, each for its own name and value. -/
theorem mem_violations (base : Settings) {entries : Entries ν} (h : entries.Distinct)
    {w : Violation ε} :
    w ∈ r.violations base entries ↔
      ∃ v, (w.name, v) ∈ entries ∧ r.Refused w.name v w.objection := by
  obtain ⟨n, objection⟩ := w
  simp only [violations, List.mem_append, mem_violation_field h, mem_strangers]
  constructor
  · rintro ((((⟨rfl, v, hmem, hread⟩ | ⟨rfl, v, hmem, hread⟩) | ⟨rfl, v, hmem, hread⟩) |
      ⟨rfl, v, hmem, hread⟩) | ⟨hunknown, rfl, v, hmem⟩)
    · exact ⟨v, hmem, .prompt hread⟩
    · exact ⟨v, hmem, .maxDepth hread⟩
    · exact ⟨v, hmem, .showTokens hread⟩
    · exact ⟨v, hmem, .showTree hread⟩
    · exact ⟨v, hmem, .unknown hunknown⟩
  · rintro ⟨v, hmem, hrefused⟩
    cases hrefused with
    | prompt hread => exact .inl (.inl (.inl (.inl ⟨rfl, v, hmem, hread⟩)))
    | maxDepth hread => exact .inl (.inl (.inl (.inr ⟨rfl, v, hmem, hread⟩)))
    | showTokens hread => exact .inl (.inl (.inr ⟨rfl, v, hmem, hread⟩))
    | showTree hread => exact .inl (.inr ⟨rfl, v, hmem, hread⟩)
    | unknown hunknown => exact .inr ⟨hunknown, rfl, v, hmem⟩

/-! ## 4. Overrides -/

/-- A field that an override changes from `old` to `new`: it is what its entry is read as, and
without an entry that has a value it stays the same. -/
structure Replaces (r : ValueReader ν ε) {α : Type} (overrides : Entries ν) (name : String)
    (read : ν → Except ε α) (old new : α) : Prop where
  read : ∀ v, (name, v) ∈ overrides → r.isNull v = false → read v = .ok new
  keep : (∀ v, (name, v) ∈ overrides → r.isNull v = true) → new = old

namespace OverridesLemmas

variable {s : Settings} {overrides : Entries ν} {α : Type} {name : String} {old new : α}
  {read : ν → Except ε α}

theorem replaces_of_field (h : overrides.Distinct)
    (hfield : field (r.present overrides) name old read = .ok new) :
    r.Replaces overrides name read old new := by
  unfold field at hfield
  constructor
  · intro v hmem hvalue
    rwa [(lookup_eq_some_iff (distinct_present h)).mpr (mem_present.mpr ⟨hmem, hvalue⟩)] at hfield
  · intro hnull
    cases hlookup : (r.present overrides).lookup name with
    | none =>
      rw [hlookup] at hfield
      cases hfield
      rfl
    | some v =>
      obtain ⟨hmem, hvalue⟩ :=
        mem_present.mp ((lookup_eq_some_iff (distinct_present h)).mp hlookup)
      rw [hnull v hmem] at hvalue
      cases hvalue

theorem mem_violations_present (s : Settings) (h : overrides.Distinct) {w : Violation ε} :
    w ∈ r.violations s (r.present overrides) ↔
      ∃ v, (w.name, v) ∈ overrides ∧ r.isNull v = false ∧ r.Refused w.name v w.objection := by
  rw [mem_violations s (distinct_present h)]
  simp only [mem_present, and_assoc]

end OverridesLemmas

/-- Let values of any kind be read in any way that reads back what settings hold, and let every
name stand in one entry at most. Overriding fails exactly when one of the entries that have a
value is refused, by an unknown name or by a value that its field does not take, and then
exactly these entries are told. Otherwise a field with a value in the entries holds what this
is read as, any other field stays the same, and the nesting allowed is at least one. Overriding
the result again is overriding once, by the entries with a value of both, where the later ones
count. -/
theorem override_laws (hr : r.ReadsBack) (s : Settings) {overrides : Entries ν}
    (h : overrides.Distinct) :
    ((∃ violations, r.override s overrides = .error violations) ↔
      ∃ name v objection, (name, v) ∈ overrides ∧ r.isNull v = false ∧
        r.Refused name v objection) ∧
    (∀ violations, r.override s overrides = .error violations → ∀ w : Violation ε,
      w ∈ violations ↔
        ∃ v, (w.name, v) ∈ overrides ∧ r.isNull v = false ∧ r.Refused w.name v w.objection) ∧
    ∀ s', r.override s overrides = .ok s' →
      r.Replaces overrides "prompt" r.toText s.prompt s'.prompt ∧
      r.Replaces overrides "max_depth" r.toDepth ⟨s.maxDepth, s.one_le_maxDepth⟩
        ⟨s'.maxDepth, s'.one_le_maxDepth⟩ ∧
      r.Replaces overrides "show_tokens" r.toFlag s.showTokens s'.showTokens ∧
      r.Replaces overrides "show_tree" r.toFlag s.showTree s'.showTree ∧
      1 ≤ s'.maxDepth ∧
      ∀ more : Entries ν, more.Distinct →
        r.override s' more = r.override s ((r.present overrides).merge (r.present more)) := by
  have hoverride := override_eq_update hr s h
  refine ⟨⟨?_, ?_⟩, ?_, ?_⟩
  · rintro ⟨violations, hfails⟩
    obtain ⟨s', hok, -⟩ | ⟨-, hne⟩ := update_cases r s (r.present overrides)
    · rw [hoverride, hok] at hfails
      cases hfails
    · obtain ⟨w, hw⟩ := List.exists_mem_of_ne_nil _ hne
      obtain ⟨v, hrefused⟩ := (mem_violations_present s h).mp hw
      exact ⟨w.name, v, w.objection, hrefused⟩
  · rintro ⟨name, v, objection, hrefused⟩
    have hw : ⟨name, objection⟩ ∈ r.violations s (r.present overrides) :=
      (mem_violations_present s h).mpr ⟨v, hrefused⟩
    obtain ⟨s', -, -, hnil⟩ | ⟨hfails, -⟩ := update_cases r s (r.present overrides)
    · rw [hnil] at hw
      cases hw
    · exact ⟨_, hoverride.trans hfails⟩
  · intro violations hfails w
    obtain ⟨s', hok, -⟩ | ⟨hviolations, -⟩ := update_cases r s (r.present overrides)
    · rw [hoverride, hok] at hfails
      cases hfails
    · rw [hoverride, hviolations] at hfails
      cases hfails
      exact mem_violations_present s h
  · intro s' hok
    rw [hoverride] at hok
    have hreads := reads_of_update hok
    refine ⟨replaces_of_field h hreads.prompt, replaces_of_field h hreads.maxDepth,
      replaces_of_field h hreads.showTokens, replaces_of_field h hreads.showTree,
      s'.one_le_maxDepth, fun more hmore => ?_⟩
    rw [override_eq_update hr s' hmore, ← update_merge hok (distinct_present hmore),
      override_eq_update hr s (distinct_merge (distinct_present h) _), present_merge]

/-- A prompt and a nesting are put over the initial settings, and then another nesting, which
counts. An unknown name is refused, and an entry without a value beside it is not told. -/
theorem override_laws_initial :
    let overrides : Entries Setting :=
      [("prompt", .text "> "), ("max_depth", .text "5"), ("show_tree", .null)]
    let s : Settings := ⟨"> ", 5, false, false, by decide⟩
    let unknown : Entries Setting := [("prompt", .null), ("colour", .flag true)]
    Setting.reader.ReadsBack ∧
    (overrides.Distinct ∧ initial.override overrides = .ok s ∧
      s.override [("max_depth", .flag true)] =
        initial.override [("prompt", .text "> "), ("max_depth", .flag true)]) ∧
    unknown.Distinct ∧ ∃ violations, initial.override unknown = .error violations ∧
      ⟨"colour", .unknownName⟩ ∈ violations ∧ ∀ w ∈ violations, w.name = "colour" := by
  intro overrides s unknown
  have hreads := Setting.readsBack_reader
  have hdistinct : overrides.Distinct := by decide
  have hunknown : unknown.Distinct := by decide
  have hok : initial.override overrides = .ok s := rfl
  obtain ⟨-, -, hlaws⟩ := override_laws hreads initial hdistinct
  obtain ⟨-, -, -, -, -, hagain⟩ := hlaws s hok
  obtain ⟨hfails, htold, -⟩ := override_laws hreads initial hunknown
  have hcolour : Setting.reader.Refused "colour" (.flag true) .unknownName :=
    .unknown (by decide)
  have hmem : ("colour", Setting.flag true) ∈ unknown := by decide
  obtain ⟨violations, herror⟩ := hfails.mpr ⟨_, _, _, hmem, rfl, hcolour⟩
  refine ⟨hreads, ⟨hdistinct, hok, hagain [("max_depth", .flag true)] (by decide)⟩, hunknown,
    violations, herror, (htold violations herror _).mpr ⟨_, hmem, rfl, hcolour⟩, ?_⟩
  intro w hw
  obtain ⟨v, hentry, hvalue, -⟩ := (htold violations herror w).mp hw
  rcases List.mem_cons.mp hentry with heq | hentry
  · have hnull : v = .null := congrArg Prod.snd heq
    rw [hnull] at hvalue
    cases hvalue
  · exact congrArg Prod.fst (List.mem_singleton.mp hentry)

end ValueReader

end Abacus
