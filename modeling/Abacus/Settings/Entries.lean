import Abacus.Settings.Basic

/-!
# Settings from entries

Settings are made of named values. Of what kind the values are, and how one is
read as a text, an integer or a flag, is left open: a reader says it. A field is
read from the value of its own entry and from nothing else, and one that is not
named keeps its value. All violations are listed: first those of the four fields
in their order, then the names that are no field, in the order of the entries.

`ValueReader.override` replaces some settings. An entry without a value replaces
nothing. The old settings are written down as values and read again, which is no
change if values read back (`ValueReader.ReadsBack`).
-/

namespace Abacus

/-- Named values, each name at most once. -/
abbrev Entries (ν : Type) := List (String × ν)

/-- An entry that is refused, by its name. -/
structure Violation (ε : Type) where
  name : String
  objection : ε
  deriving DecidableEq, Repr

/-- How values of some kind are read, what may be objected to them, and how what
has been read is written as a value. -/
structure ValueReader (ν ε : Type) where
  toText : ν → Except ε String
  toInteger : ν → Except ε Int
  toFlag : ν → Except ε Bool
  /-- True of what stands for no value. -/
  isNull : ν → Bool
  ofText : String → ν
  ofInteger : Int → ν
  ofFlag : Bool → ν
  /-- The objection to a nesting below one. -/
  belowMinimum : ε
  /-- The objection to a name that is no field. -/
  unknownName : ε

/-- What settings can hold is read again from its value, unchanged. -/
structure ValueReader.ReadsBack {ν ε : Type} (r : ValueReader ν ε) : Prop where
  text : ∀ s, r.toText (r.ofText s) = .ok s
  integer : ∀ d, 1 ≤ d → r.toInteger (r.ofInteger d) = .ok d
  flag : ∀ b, r.toFlag (r.ofFlag b) = .ok b

namespace Settings

def names : List String := ["prompt", "max_depth", "show_tokens", "show_tree"]

/-- The value of a field: what its entry is read as, or `fallback` without one. -/
def field {ν ε α : Type} (entries : Entries ν) (name : String) (fallback : α)
    (read : ν → Except ε α) : Except ε α :=
  match entries.lookup name with
  | some v => read v
  | none => .ok fallback

/-- The violation of a field, if there is one. -/
def violation {ε α : Type} (name : String) : Except ε α → List (Violation ε)
  | .ok _ => []
  | .error objection => [⟨name, objection⟩]

end Settings

namespace Entries

variable {ν : Type}

/-- The entries with the value of one name replaced, or added at the end. -/
def put (name : String) (v : ν) : Entries ν → Entries ν
  | [] => [(name, v)]
  | entry :: entries =>
    if entry.1 = name then (name, v) :: entries else entry :: put name v entries

/-- The entries with those of `changes` put over them, one after the other. -/
def merge (entries changes : Entries ν) : Entries ν :=
  changes.foldl (fun merged change => merged.put change.1 change.2) entries

end Entries

namespace ValueReader

open Settings

variable {ν ε : Type} (r : ValueReader ν ε)

/-- The nesting that a value allows. -/
def toDepth (v : ν) : Except ε { d : Int // 1 ≤ d } :=
  match r.toInteger v with
  | .ok d => if h : 1 ≤ d then .ok ⟨d, h⟩ else .error r.belowMinimum
  | .error objection => .error objection

/-- The entries that name no setting. -/
def strangers (entries : Entries ν) : List (Violation ε) :=
  (entries.filter fun entry => !names.contains entry.1).map fun entry =>
    ⟨entry.1, r.unknownName⟩

/-- The settings that the entries make of `base`. -/
def update (base : Settings) (entries : Entries ν) : Except (List (Violation ε)) Settings :=
  let prompt := field entries "prompt" base.prompt r.toText
  let depth := field entries "max_depth" ⟨base.maxDepth, base.one_le_maxDepth⟩ r.toDepth
  let showTokens := field entries "show_tokens" base.showTokens r.toFlag
  let showTree := field entries "show_tree" base.showTree r.toFlag
  match prompt, depth, showTokens, showTree, r.strangers entries with
  | .ok prompt, .ok depth, .ok showTokens, .ok showTree, [] =>
    .ok ⟨prompt, depth.val, showTokens, showTree, depth.property⟩
  | prompt, depth, showTokens, showTree, strangers =>
    .error (violation "prompt" prompt ++ violation "max_depth" depth ++
      violation "show_tokens" showTokens ++ violation "show_tree" showTree ++ strangers)

/-- The settings that the entries describe. -/
def ofEntries (entries : Entries ν) : Except (List (Violation ε)) Settings :=
  r.update initial entries

def toEntries (s : Settings) : Entries ν :=
  [("prompt", r.ofText s.prompt), ("max_depth", r.ofInteger s.maxDepth),
   ("show_tokens", r.ofFlag s.showTokens), ("show_tree", r.ofFlag s.showTree)]

/-- The entries that have a value. -/
def present (entries : Entries ν) : Entries ν :=
  entries.filter fun entry => !r.isNull entry.2

/-- The settings with some entries put over them. Without an entry that has a
value they stay as they are. -/
def override (s : Settings) (overrides : Entries ν) : Except (List (Violation ε)) Settings :=
  match r.present overrides with
  | [] => .ok s
  | changes => r.ofEntries ((r.toEntries s).merge changes)

variable {r}

/-- A nesting is read again from its value. -/
theorem ReadsBack.depth (h : r.ReadsBack) {d : Int} (hd : 1 ≤ d) :
    r.toDepth (r.ofInteger d) = .ok ⟨d, hd⟩ := by
  rw [toDepth, h.integer d hd]
  exact dif_pos hd

/-- Settings are described by their own entries. -/
theorem ofEntries_toEntries (h : r.ReadsBack) (s : Settings) :
    r.ofEntries (r.toEntries s) = .ok s := by
  rcases s with ⟨prompt, maxDepth, showTokens, showTree, hdepth⟩
  simp [ofEntries, update, field, toEntries, strangers, names, List.lookup_cons, h.text,
    h.depth hdepth, h.flag]

end ValueReader

end Abacus
