import Cockpit.Bridge.DBusRules

namespace Cockpit

open Lib List Function Rule

/-!
# The rule set counts its rules

A rule is live as often as it was added and not removed again (`live`).  The rule set keeps one
counted entry for each live rule, as long as no two live rules share a key of the hash table:
`rule_equal` looks at three of the five fields and `rule_hash` folds the others together, so a
rule about the member "X" and one about the argument "X" are one entry (`RulesOk` and
`not_rulesKept_member_arg0`).

* `DBusRules.RulesInv` — the table is the live rules with their counts;
* `DBusRules.run_rules` — what adding, removing and matching say, for every history.
-/

namespace DBusRules

/-! ### Histories -/

/-- A call, with the arguments as they are given. -/
inductive Op where
  | add (path : Option CStr) (isNamespace : Bool) (interface member arg0 : Option CStr)
  | remove (path : Option CStr) (isNamespace : Bool) (interface member arg0 : Option CStr)

/-- The rule that a call is about. -/
def Op.rule : Op → Rule
  | .add path isNamespace interface member arg0 => ruleOf path isNamespace interface member arg0
  | .remove path isNamespace interface member arg0 => ruleOf path isNamespace interface member arg0

variable (rules : DBusRules)

/-- The new set, and what the call returns. -/
def apply : Op → DBusRules × Bool
  | .add path isNamespace interface member arg0 =>
    rules.add path isNamespace interface member arg0
  | .remove path isNamespace interface member arg0 =>
    rules.remove path isNamespace interface member arg0

/-- One call. -/
def step (op : Op) : DBusRules := (rules.apply op).1

/-- How often each rule is live after one more call; removing a rule that is not live has no
    effect. -/
def liveStep (live : Rule → Nat) (op : Op) : Rule → Nat :=
  Function.update live op.rule (match op with
    | .add _ _ _ _ _ => live op.rule + 1
    | .remove _ _ _ _ _ => live op.rule - 1)

/-- How often each rule is live after a history. -/
def live (ops : List Op) : Rule → Nat := run liveStep (fun _ => 0) ops

/-- What a call should return: whether the rule becomes live, or stops being so. -/
def changes (live : Rule → Nat) : Op → Bool
  | .add path isNamespace interface member arg0 =>
    live (ruleOf path isNamespace interface member arg0) = 0
  | .remove path isNamespace interface member arg0 =>
    live (ruleOf path isNamespace interface member arg0) = 1

/-- Whether a call adds a rule. -/
def Op.isAdd : Op → Bool
  | .add _ _ _ _ _ => true
  | .remove _ _ _ _ _ => false

/-- The calls that the hash table can tell apart: no other rule in the table shares the key,
    no namespace rule with an empty path is added, and the count fits into a `gint`. -/
def RulesOk (op : Op) : Prop :=
  (∀ d ∈ rules.all, op.rule.sameKey d.rule → d.rule = op.rule) ∧
    (op.isAdd → (op.rule.isNamespace → op.rule.path ≠ CStr.empty) ∧
      ∀ d ∈ rules.all, d.rule = op.rule → d.refs.toNat < 2 ^ 31 - 1)

instance (rules : DBusRules) (op : Op) : Decidable (RulesOk rules op) :=
  inferInstanceAs (Decidable (_ ∧ (_ → _ ∧ _)))

/-! ### The invariant -/

/-- The table is the live rules with their counts, and the derived fields are up to date. -/
structure RulesInv (live : Rule → Nat) (rules : DBusRules) : Prop where
  compiled : Compiled rules (rules.all.map RuleData.rule)
  count : ∀ d ∈ rules.all, 0 < live d.rule ∧ d.refs.toNat = live d.rule
  complete : ∀ r, 0 < live r → ∃ d ∈ rules.all, d.rule = r
  nonempty : ∀ d ∈ rules.all, d.rule.isNamespace → d.rule.path ≠ CStr.empty

/-- What a lookup finds, where the key is not shared: the entry of a live rule, and nothing for
    another one. -/
theorem RulesInv.lookup {live : Rule → Nat} {rules : DBusRules} (h : RulesInv live rules)
    {rule : Rule} (hkey : ∀ d ∈ rules.all, rule.sameKey d.rule → d.rule = rule) :
    (live rule = 0 ∧ rules.lookup rule = none) ∨
      (0 < live rule ∧ ∃ d ∈ rules.all, d.rule = rule ∧ rules.lookup rule = some d) := by
  unfold DBusRules.lookup
  cases hfind : rules.all.find? (fun d => rule.sameKey d.rule) with
  | none =>
    refine .inl ⟨?_, rfl⟩
    by_contra hlive
    obtain ⟨d, hd, rfl⟩ := h.complete rule (by omega)
    exact absurd (sameKey_refl d.rule) (find?_eq_none.mp hfind d hd)
  | some d =>
    have hd := mem_of_find?_eq_some hfind
    have hsame : rule.sameKey d.rule := by
      have := find?_some hfind
      exact this
    have hrule := hkey d hd hsame
    exact .inr ⟨hrule ▸ (h.count d hd).1, d, hd, hrule, rfl⟩

/-- An empty table looks up nothing, so the test of `nothing` before a lookup saves time
    only. -/
theorem RulesInv.lookup_nothing {live : Rule → Nat} {rules : DBusRules} (h : RulesInv live rules)
    (hno : rules.nothing) (rule : Rule) : rules.lookup rule = none := by
  have hnil : rules.all = [] := map_eq_nil_iff.mp (h.compiled.nothing.mp hno)
  simp [DBusRules.lookup, hnil]

/-- Changing the count of one entry. -/
def recount (f : UInt32 → UInt32) (rule : Rule) (all : List RuleData) : List RuleData :=
  all.map (fun d => if rule.sameKey d.rule then { d with refs := f d.refs } else d)

theorem map_rule_recount (f : UInt32 → UInt32) (rule : Rule) (all : List RuleData) :
    (recount f rule all).map RuleData.rule = all.map RuleData.rule := by
  unfold recount
  rw [map_map]
  refine map_congr_left ?_
  intro d _
  simp only [comp_apply]
  split <;> rfl

section

variable {live : Rule → Nat} {rules : DBusRules} {rule : Rule}

/-- The invariant after the count of one entry was changed along with how often its rule is
    live. -/
theorem RulesInv.recount (h : RulesInv live rules) (hkey : ∀ d ∈ rules.all, rule.sameKey d.rule → d.rule = rule)
    {f : UInt32 → UInt32} {n : Nat} (hpos : 0 < n) (hlive : 0 < live rule)
    (hf : ∀ d ∈ rules.all, d.rule = rule → (f d.refs).toNat = n) :
    RulesInv (Function.update live rule n) { rules with all := recount f rule rules.all } := by
  have hmem : ∀ e ∈ DBusRules.recount f rule rules.all, ∃ d ∈ rules.all, e.rule = d.rule ∧
      e.refs = if d.rule = rule then f d.refs else d.refs := by
    intro e he
    obtain ⟨d, hd, rfl⟩ := mem_map.mp he
    refine ⟨d, hd, ?_⟩
    by_cases hr : d.rule = rule
    · have hsame : rule.sameKey d.rule := by rw [hr]; exact sameKey_refl rule
      rw [if_pos hsame, if_pos hr]
      exact ⟨rfl, rfl⟩
    · have hsame : ¬ rule.sameKey d.rule := fun hs => hr (hkey d hd hs)
      rw [if_neg hsame, if_neg hr]
      exact ⟨rfl, rfl⟩
  refine ⟨?_, ?_, ?_, ?_⟩
  · have hc := h.compiled
    simp only [map_rule_recount]
    exact { hc with }
  · intro e he
    obtain ⟨d, hd, hrule, hrefs⟩ := hmem e he
    by_cases hr : d.rule = rule
    · rw [hrule, hrefs, hr, if_pos rfl, update_self]
      exact ⟨hpos, hf d hd hr⟩
    · rw [hrule, hrefs, if_neg hr, update_of_ne hr]
      exact h.count d hd
  · intro r hr
    have hlive' : 0 < live r := by
      by_cases heq : r = rule
      · rw [heq]; exact hlive
      · rwa [update_of_ne heq] at hr
    obtain ⟨d, hd, rfl⟩ := h.complete r hlive'
    have hin : d.rule ∈ (DBusRules.recount f rule rules.all).map RuleData.rule := by
      rw [map_rule_recount]
      exact mem_map_of_mem hd
    obtain ⟨e, he, heq⟩ := mem_map.mp hin
    exact ⟨e, he, heq⟩
  intro e he
  obtain ⟨d, hd, hrule, -⟩ := hmem e he
  rw [hrule]
  exact h.nonempty d hd

/-- The invariant only depends on the table once it is compiled. -/
theorem RulesInv.of_all (count : ∀ d ∈ rules.all, 0 < live d.rule ∧ d.refs.toNat = live d.rule)
    (complete : ∀ r, 0 < live r → ∃ d ∈ rules.all, d.rule = r)
    (nonempty : ∀ d ∈ rules.all, d.rule.isNamespace → d.rule.path ≠ CStr.empty) :
    RulesInv live rules.recompileRules := by
  obtain ⟨hc, hall⟩ := compiled_recompileRules rules
  refine ⟨?_, ?_, ?_, ?_⟩
  · rw [hall]; exact hc
  · rw [hall]; exact count
  · rw [hall]; exact complete
  · rw [hall]; exact nonempty

section

variable (h : RulesInv live rules) (hkey : ∀ d ∈ rules.all, rule.sameKey d.rule → d.rule = rule)

include h hkey

/-- Adding a rule. -/
theorem RulesInv.addRule (hempty : rule.isNamespace → rule.path ≠ CStr.empty)
    (hfits : ∀ d ∈ rules.all, d.rule = rule → d.refs.toNat < 2 ^ 31 - 1) :
    RulesInv (Function.update live rule (live rule + 1)) (rules.addRule rule).1 ∧
      (rules.addRule rule).2 = decide (live rule = 0) := by
  have hlook : (if rules.nothing then none else rules.lookup rule) = rules.lookup rule := by
    split
    · rename_i hno
      exact (h.lookup_nothing hno rule).symm
    · rfl
  rcases h.lookup hkey with ⟨hzero, hnone⟩ | ⟨hpos, d, hd, hrule, hsome⟩
  · -- a new entry
    unfold DBusRules.addRule
    rw [hlook, hnone, hzero]
    refine ⟨RulesInv.of_all ?_ ?_ ?_, rfl⟩
    · intro e he
      rcases mem_append.mp he with he | he
      · have hne : e.rule ≠ rule := by
          intro heq
          have hcount := (h.count e he).1
          rw [heq] at hcount
          omega
        rw [update_of_ne hne]
        exact h.count e he
      · rw [mem_singleton.mp he, update_self]
        exact ⟨Nat.one_pos, rfl⟩
    · intro r hr
      by_cases heq : r = rule
      · exact ⟨⟨1, rule⟩, mem_append_right _ mem_cons_self, heq.symm⟩
      · rw [update_of_ne heq] at hr
        obtain ⟨e, he, hre⟩ := h.complete r hr
        exact ⟨e, mem_append_left _ he, hre⟩
    intro e he
    rcases mem_append.mp he with he | he
    · exact h.nonempty e he
    · rw [mem_singleton.mp he]
      exact hempty
  -- the count of the entry that is there
  have hrec := h.recount hkey (f := fun refs => refs + 1) (n := live rule + 1) (Nat.succ_pos _) hpos (by
    intro e he hre
    have hcount := (h.count e he).2
    have := hfits e he hre
    rw [UInt32.toNat_add, ← hre, ← hcount]
    exact Nat.mod_eq_of_lt (by show e.refs.toNat + 1 < 2 ^ 32; omega))
  unfold DBusRules.addRule
  rw [hlook, hsome]
  refine ⟨hrec, ?_⟩
  rw [eq_comm, decide_eq_false_iff_not]
  omega

/-- Removing a rule. -/
theorem RulesInv.removeRule :
    RulesInv (Function.update live rule (live rule - 1)) (rules.removeRule rule).1 ∧
      (rules.removeRule rule).2 = decide (live rule = 1) := by
  have hunused : live rule = 0 → Function.update live rule (live rule - 1) = live := by
    intro hzero
    have : live rule - 1 = live rule := by omega
    rw [this, update_eq_self]
  unfold DBusRules.removeRule
  rcases h.lookup hkey with ⟨hzero, hnone⟩ | ⟨hpos, d, hd, hrule, hsome⟩
  · -- nothing to remove
    rw [hunused hzero, hnone]
    simp only [ite_self]
    refine ⟨h, ?_⟩
    rw [eq_comm, decide_eq_false_iff_not]
    omega
  have hthere : ¬ rules.nothing := by
    intro hno
    rw [h.lookup_nothing hno rule] at hsome
    exact nomatch hsome
  have hcount : d.refs.toNat = live rule := by rw [← hrule]; exact (h.count d hd).2
  have hsub : (d.refs - 1).toNat = live rule - 1 := by
    rw [UInt32.toNat_sub_of_le _ _ (by rw [UInt32.le_iff_toNat_le, hcount]; exact hpos), hcount]
    rfl
  rw [if_neg hthere, hsome]
  dsimp only
  split
  · -- the last reference
    rename_i hlast
    have hone : live rule = 1 := by
      have hz := congrArg UInt32.toNat hlast
      rw [hsub] at hz
      have : (0 : UInt32).toNat = 0 := rfl
      omega
    have hfilter : ∀ e, e ∈ rules.all.filter (fun e => !d.rule.sameKey e.rule) ↔
        e ∈ rules.all ∧ e.rule ≠ rule := by
      intro e
      rw [mem_filter, hrule, Bool.not_eq_true']
      constructor
      · rintro ⟨he, hs⟩
        refine ⟨he, ?_⟩
        rintro rfl
        rw [sameKey_refl] at hs
        exact nomatch hs
      rintro ⟨he, hne⟩
      refine ⟨he, ?_⟩
      by_contra hs
      rw [Bool.not_eq_false] at hs
      exact hne (hkey e he hs)
    refine ⟨RulesInv.of_all ?_ ?_ ?_, by simp [hone]⟩
    · intro e he
      obtain ⟨he, hne⟩ := (hfilter e).mp he
      rw [update_of_ne hne]
      exact h.count e he
    · intro r hr
      by_cases heq : r = rule
      · rw [heq, update_self, hone] at hr
        exact absurd hr (by omega)
      · rw [update_of_ne heq] at hr
        obtain ⟨e, he, hre⟩ := h.complete r hr
        exact ⟨e, (hfilter e).mpr ⟨he, by rw [hre]; exact heq⟩, hre⟩
    · intro e he
      exact h.nonempty e ((hfilter e).mp he).1
  rename_i hmore
  have htwo : 1 < live rule := by
    by_contra hle
    apply hmore
    rw [← UInt32.toNat_inj, hsub]
    have : (0 : UInt32).toNat = 0 := rfl
    omega
  have hrec := h.recount hkey (f := fun refs => refs - 1) (n := live rule - 1) (by omega) hpos (by
    intro e he hre
    have hce : e.refs.toNat = live rule := by rw [← hre]; exact (h.count e he).2
    rw [UInt32.toNat_sub_of_le _ _ (by rw [UInt32.le_iff_toNat_le, hce]; exact hpos), hce]
    rfl)
  refine ⟨hrec, ?_⟩
  rw [eq_comm, decide_eq_false_iff_not]
  omega

end

/-- One call. -/
theorem RulesInv.step (h : RulesInv live rules) {op : Op}
    (hok : RulesOk rules op) :
    RulesInv (liveStep live op) (rules.step op) ∧ (rules.apply op).2 = changes live op := by
  obtain ⟨hkey, hadd⟩ := hok
  cases op with
  | add path isNamespace interface member arg0 => exact h.addRule hkey (hadd rfl).1 (hadd rfl).2
  | remove path isNamespace interface member arg0 => exact h.removeRule hkey

end

/-- A new rule set has no live rules. -/
theorem rulesInv_new : RulesInv (fun _ => 0) new := by
  refine ⟨⟨by simp [new], by simp [new], by simp [new],
    by simp [new], by simp [new]⟩, by simp [new], ?_,
    by simp [new]⟩
  intro r hr
  exact absurd hr (Nat.lt_irrefl 0)

/-- What a rule set should do after a history: match a message exactly when a live rule does,
    and tell of the next call whether it makes a rule live or ends that. -/
structure RulesKept (ops : List Op) : Prop where
  matching : ∀ path interface member arg0,
    (run step new ops).rulesMatch path interface member arg0 ↔
      ∃ rule, 0 < live ops rule ∧ rule.ruleMatch path interface member arg0
  returns : ∀ before op after, ops = before ++ op :: after →
    ((run step new before).apply op).2 = changes (live before) op

/-- **The rule set counts its rules**, in every history whose calls are admitted by
    `RulesOk`. -/
theorem run_rules (ops : List Op) (hok : RunOk step RulesOk new ops) : RulesKept ops := by
  have hinv : ∀ es, RunOk step RulesOk new es → RulesInv (live es) (run step new es) := by
    intro es hes
    refine run_history (fun es rules => RulesInv (live es) rules) rulesInv_new ?_ hes
    intro es rules op h hop
    have hlive : live (es ++ [op]) = liveStep (live es) op := run_append _ _ _
    rw [hlive]
    exact (h.step hop).1
  constructor
  · intro path interface member arg0
    have h := hinv ops hok
    rw [rulesMatch_iff h.compiled h.nonempty]
    constructor
    · rintro ⟨d, hd, hmatch⟩
      exact ⟨d.rule, (h.count d hd).1, hmatch⟩
    · rintro ⟨rule, hlive, hmatch⟩
      obtain ⟨d, hd, rfl⟩ := h.complete rule hlive
      exact ⟨d, hd, hmatch⟩
  · intro before op after heq
    rw [heq, runOk_append] at hok
    exact ((hinv before hok.1).step hok.2.1).2

/-- The strings "/a", "X" and "Y". -/
def pathA : CStr := ⟨[47, 97], by decide⟩

def nameX : CStr := ⟨[88], by decide⟩

def nameY : CStr := ⟨[89], by decide⟩

/-- A rule about the member "X", added twice and removed once, beside one about the argument
    "Y". -/
theorem run_rules_counted :
    RunOk step RulesOk new [.add pathA false none nameX none, .add pathA false none nameX none,
        .add none false none none nameY, .remove pathA false none nameX none] ∧
      RulesKept [.add pathA false none nameX none, .add pathA false none nameX none,
        .add none false none none nameY, .remove pathA false none nameX none] := by
  have hok : RunOk step RulesOk new [.add pathA false none nameX none,
      .add pathA false none nameX none, .add none false none none nameY,
      .remove pathA false none nameX none] := by decide
  exact ⟨hok, run_rules _ hok⟩

/-- A rule about the member "X" and a rule about the argument "X" are one entry: the second one
    is said to be there already. -/
theorem not_rulesKept_member_arg0 :
    ¬ RulesKept [.add pathA false none nameX none, .add pathA false none none nameX] := by
  intro h
  have hreturns := h.returns [.add pathA false none nameX none]
    (.add pathA false none none nameX) [] rfl
  exact nomatch hreturns

end DBusRules

end Cockpit
