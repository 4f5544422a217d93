import Cockpit.Lib.Run
import Cockpit.Bridge.Paths

namespace Cockpit

open Lib List GLib

/-!
# `src/bridge/cockpitdbusrules.c`

A set of reference counted rules in a hash table, and what `recompile_rules` derives from it
so that most messages can be told not to match without a look at the rules.

* `DBusRules.Compiled` — the derived fields are those of the table;
* `DBusRules.rulesMatch_iff` — so the fast path agrees with trying the rules one by one, and so it
  does after `recompile_rules` (`DBusRules.rulesMatch_recompileRules`).
-/

/-- The five fields of a rule. -/
structure Rule where
  path : CStr
  isNamespace : Bool
  interface : Option CStr
  member : Option CStr
  arg0 : Option CStr
  deriving DecidableEq

namespace Rule

/-- `rule_hash`, with `g_int_hash` of a `gboolean`. -/
def hash (rule : Rule) : UInt32 :=
  strHash rule.path ^^^
    (if rule.isNamespace then 1 else 0) ^^^
    ((rule.interface.map strHash).getD 0) ^^^
    ((rule.member.map strHash).getD 0) ^^^
    ((rule.arg0.map strHash).getD 0)

/-- `rule_equal` -/
def equal (r1 r2 : Rule) : Bool :=
  r1.isNamespace == r2.isNamespace && r1.path == r2.path && r1.interface == r2.interface

/-- Whether the hash table takes two rules for one key. -/
def sameKey (r1 r2 : Rule) : Bool := r1.hash == r2.hash && r1.equal r2

theorem sameKey_refl (r : Rule) : r.sameKey r := by simp [sameKey, equal]

/-- The test of the path in `rule_match`. -/
def pathMatch (rule : Rule) (path : CStr) : Bool :=
  rule.path == path || (rule.isNamespace && Paths.equalOrAncestor path rule.path)

/-- `rule_match` -/
def ruleMatch (rule : Rule) (path : CStr) (interface member arg0 : Option CStr) : Bool :=
  rule.pathMatch path &&
    (interface.isNone || rule.interface.isNone || interface == rule.interface) &&
    (member.isNone || rule.member.isNone || member == rule.member) &&
    (rule.arg0.isNone || arg0 == rule.arg0)

end Rule

/-- A `RuleData`; `refs` is the `gint` in two's complement. -/
structure RuleData where
  refs : UInt32
  rule : Rule

/-- `struct _CockpitDBusRules` -/
structure DBusRules where
  all : List RuleData
  paths : List CStr
  pathNamespaces : List CStr
  allPaths : Bool
  onlyPaths : Bool
  nothing : Bool

namespace DBusRules

/-- `cockpit_dbus_rules_new` -/
def new : DBusRules := ⟨[], [], [], false, false, true⟩

variable (rules : DBusRules)

/-- `cockpit_dbus_rules_match` -/
def rulesMatch (path : CStr) (interface member arg0 : Option CStr) : Bool :=
  if rules.nothing then false
  else if !rules.allPaths && (!Paths.containOrAncestor rules.pathNamespaces path &&
      !rules.paths.contains path) then false
  else if rules.onlyPaths then true
  else rules.all.any (fun d => d.rule.ruleMatch path interface member arg0)

variable (rule : Rule)

/-- `rule_lookup` -/
def lookup : Option RuleData :=
  rules.all.find? (fun d => rule.sameKey d.rule)

/-- One turn of the loop of `recompile_rules`. -/
def recompileRule : DBusRules :=
  let rules := { rules with nothing := false }
  let rules : DBusRules :=
    if rule.isNamespace then
      { rules with
        allPaths := rules.allPaths || rule.path == rootPath
        pathNamespaces := Paths.add rules.pathNamespaces rule.path }
    else { rules with paths := rule.path :: rules.paths }
  if rule.interface.isSome || rule.member.isSome || rule.arg0.isSome then
    { rules with onlyPaths := false }
  else rules

/-- `recompile_rules` -/
def recompileRules : DBusRules :=
  (rules.all.map RuleData.rule).foldl recompileRule
    { rules with
      paths := []
      pathNamespaces := []
      allPaths := false
      nothing := true
      onlyPaths := true }

variable (path : Option CStr) (isNamespace : Bool)

/-- The rule that arguments stand for: no path is the namespace of the root. -/
def ruleOf (interface member arg0 : Option CStr) :
    Rule :=
  match path with
  | none => ⟨rootPath, true, interface, member, arg0⟩
  | some path => ⟨path, isNamespace, interface, member, arg0⟩

/-- `cockpit_dbus_rules_add`, after its arguments were made a rule. -/
def addRule : DBusRules × Bool :=
  match if rules.nothing then none else rules.lookup rule with
  | none => (({ rules with all := rules.all ++ [⟨1, rule⟩] } : DBusRules).recompileRules, true)
  | some _ =>
    ({ rules with
      all := rules.all.map (fun d => if rule.sameKey d.rule then { d with refs := d.refs + 1 } else d) },
      false)

/-- `cockpit_dbus_rules_remove`, after its arguments were made a rule. -/
def removeRule : DBusRules × Bool :=
  if rules.nothing then (rules, false)
  else
    match rules.lookup rule with
    | none => (rules, false)
    | some data =>
      if data.refs - 1 = 0 then
        (({ rules with all := rules.all.filter (fun d => !data.rule.sameKey d.rule) } :
          DBusRules).recompileRules, true)
      else
        ({ rules with
          all := rules.all.map (fun d => if rule.sameKey d.rule then { d with refs := d.refs - 1 } else d) },
          false)

/-- `cockpit_dbus_rules_add` -/
def add
    (interface member arg0 : Option CStr) : DBusRules × Bool :=
  rules.addRule (ruleOf path isNamespace interface member arg0)

/-- `cockpit_dbus_rules_remove` -/
def remove
    (interface member arg0 : Option CStr) : DBusRules × Bool :=
  rules.removeRule (ruleOf path isNamespace interface member arg0)

/-! ### The derived fields -/

/-- The derived fields are those of the rules `rs`. -/
structure Compiled (rules : DBusRules) (rs : List Rule) : Prop where
  nothing : rules.nothing ↔ rs = []
  paths : ∀ p, p ∈ rules.paths ↔ ∃ r ∈ rs, r.isNamespace = false ∧ r.path = p
  namespaces : ∀ p, p ∈ rules.pathNamespaces ↔ ∃ r ∈ rs, r.isNamespace ∧ r.path = p
  allPaths : rules.allPaths ↔ ∃ r ∈ rs, r.isNamespace ∧ r.path = rootPath
  onlyPaths : rules.onlyPaths →
    ∀ r ∈ rs, r.interface = none ∧ r.member = none ∧ r.arg0 = none

theorem mem_add {tree : List CStr} {path p : CStr} :
    p ∈ Paths.add tree path ↔ p = path ∨ p ∈ tree := by
  unfold Paths.add
  split
  · rename_i h
    exact ⟨.inr, fun hp => hp.elim (fun heq => heq ▸ h) id⟩
  · exact mem_cons

/-- Whether a rule asks for more than a path. -/
def constrained : Bool :=
  rule.interface.isSome || rule.member.isSome || rule.arg0.isSome

/-- What one turn of the loop does, field by field. -/
theorem recompileRule_eq :
    rules.recompileRule rule =
      { rules with
        nothing := false
        paths := if rule.isNamespace then rules.paths else rule.path :: rules.paths
        pathNamespaces :=
          if rule.isNamespace then Paths.add rules.pathNamespaces rule.path else rules.pathNamespaces
        allPaths := rules.allPaths || (rule.isNamespace && rule.path == rootPath)
        onlyPaths := rules.onlyPaths && !constrained rule } := by
  unfold recompileRule constrained
  cases rule.isNamespace <;>
    cases (rule.interface.isSome || rule.member.isSome || rule.arg0.isSome) <;> simp

variable {rules : DBusRules}

/-- One more rule is compiled. -/
theorem Compiled.recompileRule {rs : List Rule} (h : Compiled rules rs)
    (rule : Rule) : Compiled (rules.recompileRule rule) (rs ++ [rule]) := by
  have hsnoc : ∀ P : Rule → Prop, (∃ r ∈ rs ++ [rule], P r) ↔ (∃ r ∈ rs, P r) ∨ P rule := by
    intro P
    simp only [mem_append, mem_singleton, or_and_right, exists_or, exists_eq_left]
  rw [recompileRule_eq]
  refine ⟨by simp, ?_, ?_, ?_, ?_⟩
  · intro p
    rw [hsnoc, ← h.paths p]
    cases rule.isNamespace with
    | true => simp
    | false => simp [or_comm, eq_comm (a := p)]
  · intro p
    rw [hsnoc, ← h.namespaces p]
    cases rule.isNamespace with
    | true => simp [mem_add, or_comm, eq_comm (a := p)]
    | false => simp
  · rw [hsnoc, ← h.allPaths]
    simp
  intro honly r hr
  simp only [Bool.and_eq_true, Bool.not_eq_true'] at honly
  rcases mem_append.mp hr with hr | hr
  · exact h.onlyPaths honly.1 r hr
  · rw [mem_singleton.mp hr]
    simpa [constrained, and_assoc] using honly.2

/-- After `recompile_rules` the derived fields are those of the table. -/
theorem compiled_recompileRules (rules : DBusRules) :
    Compiled rules.recompileRules (rules.all.map RuleData.rule) ∧
      rules.recompileRules.all = rules.all := by
  have key : ∀ todo done rs, Compiled rs done → rs.all = rules.all →
      Compiled (todo.foldl DBusRules.recompileRule rs) (done ++ todo) ∧
        (todo.foldl DBusRules.recompileRule rs).all = rules.all := by
    intro todo
    induction todo with
    | nil => intro done rs h hall; exact ⟨by simpa using h, hall⟩
    | cons rule todo ih =>
      intro done rs h hall
      have := ih (done ++ [rule]) (rs.recompileRule rule) (h.recompileRule rule)
        (by rw [recompileRule_eq]; exact hall)
      simpa using this
  refine key (rules.all.map RuleData.rule) [] _ ?_ rfl
  exact ⟨by simp, by simp, by simp, by simp, by simp⟩

/-! ### The fast path -/

/-- **The fast path agrees with trying the rules one by one**, if there is no namespace rule
    with an empty path. -/
theorem rulesMatch_iff (h : Compiled rules (rules.all.map RuleData.rule))
    (hempty : ∀ d ∈ rules.all, d.rule.isNamespace → d.rule.path ≠ CStr.empty)
    (path : CStr) (interface member arg0 : Option CStr) :
    rules.rulesMatch path interface member arg0 ↔
      ∃ d ∈ rules.all, d.rule.ruleMatch path interface member arg0 := by
  have hmem : ∀ P : Rule → Prop, (∃ r ∈ rules.all.map RuleData.rule, P r) ↔
      ∃ d ∈ rules.all, P d.rule := by simp
  -- without the root, the namespaces are searched from the path upwards
  have hnamespaces : rules.allPaths = false → (Paths.containOrAncestor rules.pathNamespaces path ↔
        ∃ d ∈ rules.all, d.rule.isNamespace ∧
          Paths.equalOrAncestor path d.rule.path) := by
    intro hall
    have hroot : rootPath ∉ rules.pathNamespaces := by
      rw [h.namespaces, ← h.allPaths, hall]
      exact Bool.false_ne_true
    have hnone : CStr.empty ∉ rules.pathNamespaces := by
      rw [h.namespaces, hmem]
      rintro ⟨d, hd, hns, hp⟩
      exact hempty d hd hns hp
    rw [Paths.containOrAncestor_iff hroot hnone]
    constructor
    · rintro ⟨p, hp, hanc⟩
      rw [h.namespaces, hmem] at hp
      obtain ⟨d, hd, hns, rfl⟩ := hp
      exact ⟨d, hd, hns, hanc⟩
    · rintro ⟨d, hd, hns, hanc⟩
      exact ⟨d.rule.path, (h.namespaces _).mpr ((hmem _).mpr ⟨d, hd, hns, rfl⟩), hanc⟩
  -- so a message is told not to match early only when no rule is about its path
  have hpath : (!rules.allPaths && (!Paths.containOrAncestor rules.pathNamespaces path &&
      !rules.paths.contains path)) = false ↔ ∃ d ∈ rules.all, d.rule.pathMatch path := by
    have hlisted : path ∈ rules.paths ↔
        ∃ d ∈ rules.all, d.rule.isNamespace = false ∧ d.rule.path = path := by
      rw [h.paths, hmem]
    cases hall : rules.allPaths with
    | true =>
      obtain ⟨d, hd, hns, hp⟩ := (hmem _).mp (h.allPaths.mp hall)
      refine ⟨fun _ => ⟨d, hd, ?_⟩, fun _ => rfl⟩
      simp [Rule.pathMatch, hns, hp, Paths.equalOrAncestor]
    | false =>
      simp only [Bool.not_false, Bool.true_and, Bool.and_eq_false_iff, Bool.not_eq_false',
        contains_iff_mem, hnamespaces hall, hlisted]
      constructor
      · rintro (⟨d, hd, hns, hanc⟩ | ⟨d, hd, hns, hp⟩)
        · exact ⟨d, hd, by simp [Rule.pathMatch, hns, hanc]⟩
        · exact ⟨d, hd, by simp [Rule.pathMatch, hp]⟩
      rintro ⟨d, hd, hmatch⟩
      simp only [Rule.pathMatch, Bool.or_eq_true, beq_iff_eq, Bool.and_eq_true] at hmatch
      rcases hmatch with hp | ⟨hns, hanc⟩
      · cases hns : d.rule.isNamespace with
        | true => exact .inl ⟨d, hd, hns, by simp [Paths.equalOrAncestor, hp]⟩
        | false => exact .inr ⟨d, hd, hns, hp⟩
      · exact .inl ⟨d, hd, hns, hanc⟩
  unfold rulesMatch
  split
  · rename_i hno
    have hnil : rules.all = [] := map_eq_nil_iff.mp (h.nothing.mp hno)
    simp [hnil]
  split
  · rename_i hearly
    refine ⟨fun hf => absurd hf Bool.false_ne_true, ?_⟩
    rintro ⟨d, hd, hmatch⟩
    simp only [Rule.ruleMatch, Bool.and_eq_true] at hmatch
    have := hpath.mpr ⟨d, hd, hmatch.1.1.1⟩
    exact absurd (hearly.symm.trans this) (by simp)
  rename_i hearly
  split
  · -- every rule is about its path only
    rename_i honly
    obtain ⟨d, hd, hmatch⟩ := hpath.mp (Bool.eq_false_iff.mpr hearly)
    obtain ⟨hi, hm, ha⟩ := h.onlyPaths honly d.rule (mem_map_of_mem hd)
    exact ⟨fun _ => ⟨d, hd, by simp [Rule.ruleMatch, hmatch, hi, hm, ha]⟩, fun _ => rfl⟩
  · exact any_eq_true

/-- **Once it is compiled, a set of rules matches what one of its rules matches**, if their paths
    are object paths. -/
theorem rulesMatch_recompileRules (rules : DBusRules)
    (hpaths : ∀ d ∈ rules.all, Paths.isObjectPath d.rule.path = true)
    (path : CStr) (interface member arg0 : Option CStr) :
    rules.recompileRules.rulesMatch path interface member arg0 =
      rules.all.any fun d => d.rule.ruleMatch path interface member arg0 := by
  obtain ⟨hcompiled, hall⟩ := compiled_recompileRules rules
  rw [← hall] at hcompiled
  rw [Bool.eq_iff_iff, rulesMatch_iff hcompiled ?_, hall, any_eq_true]
  -- an object path is not empty
  rw [hall]
  intro d hd _ hempty
  have hvalid := hpaths d hd
  rw [hempty] at hvalid
  exact nomatch hvalid

/-- A rule for what is below `/a`, and one that asks for an interface. -/
theorem rulesMatch_below :
    let rules : DBusRules := { DBusRules.new with
      all := [⟨1, ⟨⟨[47, 97], by decide⟩, true, none, none, none⟩⟩,
        ⟨1, ⟨⟨[47], by decide⟩, false, some ⟨[120], by decide⟩, none, none⟩⟩] }
    rules.recompileRules.rulesMatch ⟨[47, 97, 47, 98], by decide⟩ none none none =
      rules.all.any fun d => d.rule.ruleMatch ⟨[47, 97, 47, 98], by decide⟩ none none none :=
  rulesMatch_recompileRules _ (by decide) _ none none none

end DBusRules

end Cockpit
