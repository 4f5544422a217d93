import Cockpit.Common.JsonEqual
import Cockpit.Bridge.Router

namespace Cockpit

open Lib List

/-!
# The rules of a router, and `cockpit_router_set_bridges`

The list of rules that `cockpit_router_add_channel`, `cockpit_router_add_peer`,
`cockpit_router_add_bridge` and `cockpit_router_ban_hosts` put together, and what a reload of the
bridges makes of it.  Only the rules of bridges have a configuration.

* `RouterRules.Reloaded` — what a reload comes to: a rule for each configuration and then the other
  rules, where as many rules are kept as there are old rules and configurations that match;
* `RouterRules.setBridges_reloaded` — every reload does, in every router.

Rules are numbered as they are made, and the number stands for the address.  A rule of a bridge has
a `CockpitPeer` or a `DynamicPeer` of its own, which is numbered with it.
-/

/-- What a rule refers to. -/
inductive RuleTarget where
  /-- the type of a local channel -/
  | channel (type : String)
  /-- a peer that was handed in -/
  | peer (id : Nat)
  /-- the peers of the rule itself; `template` says whether there are variables in the
      configuration -/
  | bridge (template : Bool)
  | notSupported

/-- `RouterRule`, with the configuration of a bridge. -/
structure BridgeRule where
  id : Nat
  config : Option JsonObject
  conditions : List RouterMatch
  target : RuleTarget

namespace BridgeRule

/-- `rule->config` is there, and equal to a configuration. -/
def like (config : JsonObject) (rule : BridgeRule) : Bool :=
  rule.config.any fun c => Json.equalObject c config

/-- The rule of a bridge. -/
def isBridge (rule : BridgeRule) : Bool := rule.config.isSome

end BridgeRule

/-- The rules of a `CockpitRouter`, how many were made so far, and the ones that were destroyed. -/
structure RouterRules where
  rules : List BridgeRule
  made : Nat
  destroyed : List BridgeRule

namespace RouterRules

/-- `cockpit_router_init`: a default rule -/
def new : RouterRules := ⟨[⟨0, none, [], .notSupported⟩], 1, []⟩

/-- `router_rule_compile` -/
def compile (object : JsonObject) : List RouterMatch :=
  object.map fun member => RouterMatch.compile member.1 member.2

variable (s : RouterRules)

/-- A new rule comes first. -/
def prepend (config : Option JsonObject) (conditions : List RouterMatch)
    (target : RuleTarget) : RouterRules :=
  { s with rules := ⟨s.made, config, conditions, target⟩ :: s.rules, made := s.made + 1 }

/-- `cockpit_router_ban_hosts` -/
def banHosts : RouterRules :=
  s.prepend none (compile [("host", .null)]) .notSupported

/-- `cockpit_router_add_channel` -/
def addChannel (object : JsonObject) (type : String) : RouterRules :=
  s.prepend none (compile object) (.channel type)

/-- `cockpit_router_add_peer` -/
def addPeer (object : JsonObject) (peer : Nat) : RouterRules :=
  s.prepend none (compile object) (.peer peer)

variable (template : JsonObject → Bool)

/-- `cockpit_router_add_bridge`; `template` is what `cockpit_template_expand` finds out. -/
def addBridge (s : RouterRules) (config : JsonObject) :
    RouterRules :=
  s.prepend (some config) (compile ((Json.getObject config "match").join.getD []))
    (.bridge (template config))

/-- `router_rule_find` -/
def find (rules : List BridgeRule) (config : JsonObject) : Option BridgeRule :=
  rules.find? (BridgeRule.like config)

/-- `g_list_remove` -/
def remove (rules : List BridgeRule) (rule : BridgeRule) : List BridgeRule :=
  rules.eraseP fun r => r.id == rule.id

/-- One turn of the first loop of `cockpit_router_set_bridges`, with `old_rules`. -/
def takeOver (st : List BridgeRule × RouterRules)
    (config : JsonObject) : List BridgeRule × RouterRules :=
  match find st.1 config with
  | some rule => (remove st.1 rule, { st.2 with rules := rule :: st.2.rules })
  | none => (st.1, st.2.addBridge template config)

/-- One turn of the second loop: `router_rule_destroy`, or the rule comes last. -/
def sweep (rule : BridgeRule) : RouterRules :=
  if rule.config.isSome then { s with destroyed := s.destroyed ++ [rule] }
  else { s with rules := s.rules ++ [rule] }

/-- `cockpit_router_set_bridges` -/
def setBridges (s : RouterRules) (bridges : List JsonObject) :
    RouterRules :=
  let st := bridges.reverse.foldl (takeOver template) (s.rules, { s with rules := [] })
  st.1.foldl sweep st.2

end RouterRules

/-- What is done to the rules of a router. -/
inductive RouterRulesEvent where
  | banHosts
  | addChannel (object : JsonObject) (type : String)
  | addPeer (object : JsonObject) (peer : Nat)
  | addBridge (config : JsonObject)
  | setBridges (bridges : List JsonObject)

namespace RouterRules

variable (template : JsonObject → Bool)

/-- One call. -/
def step (s : RouterRules) : RouterRulesEvent → RouterRules
  | .banHosts => s.banHosts
  | .addChannel object type => s.addChannel object type
  | .addPeer object peer => s.addPeer object peer
  | .addBridge config => s.addBridge template config
  | .setBridges bridges => s.setBridges template bridges

/-! ### What a reload comes to -/

variable (s : RouterRules)

/-- No rule is there twice, destroyed ones included. -/
def Inv : Prop :=
  (s.rules ++ s.destroyed).Pairwise (fun a b => a.id ≠ b.id) ∧
    ∀ rule ∈ s.rules ++ s.destroyed, rule.id < s.made

/-- The rules of a router after a reload, against the ones before. -/
structure Reloaded (s : RouterRules) (configs : List JsonObject) (s' : RouterRules) : Prop where
  /-- The rules: one for each configuration, and the ones that are not of a bridge.  The new ones
      were made for it, the `kept` ones are old. -/
  rules : ∃ bridges kept gone, s'.rules = bridges ++ s.rules.filter (fun r => !r.isBridge) ∧
    List.Forall₂ (fun config rule => BridgeRule.like config rule = true) configs bridges ∧
    kept = bridges.filter (fun rule => rule.id < s.made) ∧
    -- every old rule of a bridge is kept or destroyed
    s'.destroyed = s.destroyed ++ gone ∧
    (kept ++ gone).Perm (s.rules.filter BridgeRule.isBridge) ∧
    -- and as many are kept as there can be
    ∀ config, kept.countP (BridgeRule.like config) =
      min (s.rules.countP (BridgeRule.like config)) (configs.countP (Json.equalObject config))
  /-- No rule is there twice, and none is destroyed twice. -/
  inv : s'.Inv

/-! ### Taking over what is there -/

variable {rule : BridgeRule} {c : JsonObject}

/-- A rule is like a configuration when its own is. -/
theorem like_eq_of_like {config : JsonObject} (h : BridgeRule.like c rule) :
    BridgeRule.like config rule = Json.equalObject config c := by
  unfold BridgeRule.like at h ⊢
  cases hconfig : rule.config with
  | none =>
    rw [hconfig] at h
    exact nomatch h
  | some own =>
    rw [hconfig, Option.any_some] at h
    rw [Option.any_some, Bool.eq_iff_iff]
    constructor
    · intro heq
      exact Json.equalObject_trans (Json.equalObject_symm heq) h
    · intro heq
      exact Json.equalObject_trans h (Json.equalObject_symm heq)

/-- Only rules of bridges are like a configuration. -/
theorem isBridge_of_like (h : BridgeRule.like c rule) : rule.isBridge := by
  unfold BridgeRule.like at h
  unfold BridgeRule.isBridge
  cases hconfig : rule.config with
  | none =>
    rw [hconfig] at h
    exact nomatch h
  | some own => rfl

/-- The old ones among the rules `rs`. -/
def kept (rs : List BridgeRule) : List BridgeRule :=
  rs.filter fun rule => rule.id < s.made

/-- The first loop, after the configurations `configs`: what is left of the old rules, and the new
    list so far. -/
structure TakenOver (s : RouterRules) (configs : List JsonObject) (old : List BridgeRule)
    (t : RouterRules) : Prop where
  rows : List.Forall₂ (fun config rule => BridgeRule.like config rule = true) configs t.rules
  perm : (s.kept t.rules ++ old).Perm s.rules
  order : old.filter (fun r => !r.isBridge) = s.rules.filter (fun r => !r.isBridge)
  count : ∀ config, (s.kept t.rules).countP (BridgeRule.like config) =
    min (s.rules.countP (BridgeRule.like config)) (configs.countP (Json.equalObject config))
  fresh : (t.rules.filter fun rule => ¬ rule.id < s.made).Pairwise fun a b => a.id ≠ b.id
  made : s.made ≤ t.made
  bound : ∀ rule ∈ t.rules, rule.id < t.made
  destroyed : t.destroyed = s.destroyed

/-- At first nothing is taken over. -/
theorem takenOver_nil : TakenOver s [] s.rules { s with rules := [] } where
  rows := .nil
  perm := List.Perm.refl _
  order := rfl
  count := by simp [kept]
  fresh := List.Pairwise.nil
  made := Nat.le_refl _
  bound := by simp
  destroyed := rfl

variable {s t : RouterRules} {configs : List JsonObject} {old : List BridgeRule}

/-- What is like a configuration was there, and is kept or left. -/
theorem TakenOver.count_add (h : TakenOver s configs old t) (config : JsonObject) :
    (s.kept t.rules).countP (BridgeRule.like config) + old.countP (BridgeRule.like config) =
      s.rules.countP (BridgeRule.like config) := by
  rw [← countP_append]
  exact h.perm.countP_eq _

/-- Removing a rule that is there takes out just this one. -/
theorem remove_split {rules : List BridgeRule} (hmem : rule ∈ rules)
    (hids : rules.Pairwise fun a b => a.id ≠ b.id) :
    ∃ before after, rules = before ++ rule :: after ∧ remove rules rule = before ++ after := by
  obtain ⟨other, before, after, -, hid, hsplit, herase⟩ :=
    exists_of_eraseP (p := fun r : BridgeRule => r.id == rule.id) hmem (beq_self_eq_true _)
  refine ⟨before, after, ?_, herase⟩
  rw [hsplit]
  -- two rules of one number are one
  have heq : other = rule := by
    rw [hsplit] at hmem hids
    by_contra hne
    have hid : other.id = rule.id := beq_iff_eq.mp hid
    obtain ⟨-, hafter, hbef⟩ := pairwise_append.mp hids
    rcases mem_append.mp hmem with hb | ha
    · exact hbef rule hb other mem_cons_self hid.symm
    · rcases mem_cons.mp ha with heq | ha
      · exact hne heq.symm
      · exact rel_of_pairwise_cons hafter ha hid
  rw [heq]

/-- **One more configuration** finds a rule that is left, or gets a new one. -/
theorem TakenOver.takeOver
    (hinv : s.Inv) (h : TakenOver s configs old t) (template : JsonObject → Bool)
    (config : JsonObject) :
    TakenOver s (config :: configs) (takeOver template (old, t) config).1
      (takeOver template (old, t) config).2 := by
  unfold RouterRules.takeOver
  dsimp only
  cases hfind : find old config with
  | some rule =>
    have hlike : BridgeRule.like config rule := find?_some hfind
    have hmem : rule ∈ old := mem_of_find?_eq_some hfind
    have hrules : rule ∈ s.rules := h.perm.subset (mem_append_right _ hmem)
    have hid : rule.id < s.made := hinv.2 rule (mem_append_left _ hrules)
    have hsym : ∀ {a b : BridgeRule}, a.id ≠ b.id → b.id ≠ a.id := fun h => Ne.symm h
    have hids : old.Pairwise fun a b => a.id ≠ b.id := by
      have hall := (h.perm.pairwise_iff hsym).mpr (pairwise_append.mp hinv.1).1
      exact (pairwise_append.mp hall).2.1
    obtain ⟨before, after, hsplit, hremove⟩ := remove_split hmem hids
    have hkept : s.kept (rule :: t.rules) = rule :: s.kept t.rules :=
      filter_cons_of_pos (by simpa using hid)
    dsimp only
    refine ⟨.cons hlike h.rows, ?_, ?_, ?_, ?_, h.made, ?_, h.destroyed⟩
    · -- the rule goes from what is left to what is kept
      refine List.Perm.trans ?_ h.perm
      rw [hkept, hremove, hsplit, cons_append]
      refine perm_middle.symm.trans ?_
      exact List.Perm.append_left _ perm_middle.symm
    · rw [← h.order, hremove, hsplit]
      simp [isBridge_of_like hlike]
    · intro other
      have hcount := h.count other
      have hadd := h.count_add other
      have hhas : BridgeRule.like other rule → 0 < old.countP (BridgeRule.like other) :=
        fun hlike => countP_pos_iff.mpr ⟨rule, hmem, hlike⟩
      rw [hkept, countP_cons, countP_cons, ← like_eq_of_like hlike]
      by_cases hother : BridgeRule.like other rule
      · have := hhas hother
        rw [if_pos hother]
        omega
      · rw [if_neg hother]
        exact hcount
    · rw [filter_cons_of_neg (by simpa using hid)]
      exact h.fresh
    intro r hr
    rcases mem_cons.mp hr with rfl | hr
    · exact Nat.lt_of_lt_of_le hid h.made
    · exact h.bound r hr
  | none =>
    have hnone : ∀ rule ∈ old, ¬ BridgeRule.like config rule :=
      find?_eq_none.mp hfind
    have hlike : BridgeRule.like config ⟨t.made, some config,
        compile ((Json.getObject config "match").join.getD []), .bridge (template config)⟩ :=
      Json.equalObject_refl config
    have hnew : ¬ t.made < s.made := Nat.not_lt.mpr h.made
    dsimp only [addBridge, prepend]
    have hkept : s.kept (⟨t.made, some config,
        compile ((Json.getObject config "match").join.getD []), .bridge (template config)⟩ ::
          t.rules) = s.kept t.rules := filter_cons_of_neg (by simpa using hnew)
    refine ⟨.cons hlike h.rows, ?_, h.order, ?_, ?_, ?_, ?_, h.destroyed⟩
    · rw [hkept]
      exact h.perm
    · intro other
      have hcount := h.count other
      have hadd := h.count_add other
      rw [hkept, countP_cons]
      by_cases hother : Json.equalObject other config
      · -- all that are like this one are kept already
        have hzero : old.countP (BridgeRule.like other) = 0 := by
          rw [countP_eq_zero]
          intro rule hrule hlike
          have hlike' : BridgeRule.like config rule := by
            rw [like_eq_of_like hlike]
            exact Json.equalObject_symm hother
          exact hnone rule hrule hlike'
        rw [if_pos hother]
        omega
      · rw [if_neg hother]
        exact hcount
    · rw [filter_cons_of_pos (by simpa using hnew), pairwise_cons]
      refine ⟨fun r hr => ?_, h.fresh⟩
      have := h.bound r (mem_filter.mp hr).1
      dsimp only
      omega
    · exact Nat.le_succ_of_le h.made
    intro r hr
    rcases mem_cons.mp hr with rfl | hr
    · exact Nat.lt_succ_self _
    · exact Nat.lt_succ_of_lt (h.bound r hr)

/-- The whole of the first loop, which goes from the last configuration to the first. -/
theorem takenOver_foldl (hinv : s.Inv) (template : JsonObject → Bool) (configs : List JsonObject) :
    TakenOver s configs
      (configs.reverse.foldl (takeOver template) (s.rules, { s with rules := [] })).1
      (configs.reverse.foldl (takeOver template) (s.rules, { s with rules := [] })).2 := by
  induction configs with
  | nil => exact takenOver_nil s
  | cons config configs ih =>
    rw [reverse_cons, foldl_append, foldl_cons, foldl_nil]
    exact ih.takeOver hinv template config

/-- The second loop destroys the rules of bridges and keeps the others. -/
theorem foldl_sweep (old : List BridgeRule) (t : RouterRules) :
    old.foldl sweep t =
      { t with
        rules := t.rules ++ old.filter fun r => !r.isBridge
        destroyed := t.destroyed ++ old.filter BridgeRule.isBridge } := by
  induction old generalizing t with
  | nil => simp
  | cons rule old ih =>
    rw [foldl_cons, ih]
    unfold sweep
    by_cases hbridge : rule.isBridge
    · rw [if_pos (show rule.config.isSome from hbridge)]
      simp [hbridge]
    · rw [if_neg (show ¬ rule.config.isSome from hbridge)]
      simp [hbridge]

/-- **What a reload comes to.** -/
theorem setBridges_reloaded (hinv : s.Inv) (template : JsonObject → Bool)
    (configs : List JsonObject) : Reloaded s configs (s.setBridges template configs) := by
  have h := takenOver_foldl hinv template configs
  unfold setBridges
  dsimp only
  revert h
  generalize configs.reverse.foldl (takeOver template)
    (s.rules, { s with rules := [] }) = st
  intro h
  rw [foldl_sweep]
  have hall : ∀ rule ∈ s.kept st.2.rules, rule.isBridge := by
    intro rule hrule
    obtain ⟨c, -, hlike⟩ : ∃ c ∈ configs, BridgeRule.like c rule := by
      have hmem := (mem_filter.mp hrule).1
      obtain ⟨i, hi, rfl⟩ := mem_iff_getElem.mp hmem
      have hlen := h.rows.length_eq
      exact ⟨configs[i], getElem_mem _, (forall₂_iff_get.mp h.rows).2 i (by omega) hi⟩
    exact isBridge_of_like hlike
  constructor
  · refine ⟨st.2.rules, s.kept st.2.rules, st.1.filter BridgeRule.isBridge, ?_, h.rows, rfl, ?_, ?_,
      h.count⟩
    · rw [h.order]
    · rw [h.destroyed]
    · -- of the old rules, those of bridges
      have hfilter := h.perm.filter BridgeRule.isBridge
      rwa [filter_append, filter_eq_self.mpr hall] at hfilter
  -- the rules that are there or destroyed are the old ones and the new ones
  have hsplit : (st.2.rules ++ st.1.filter (fun r => !r.isBridge) ++
      (st.2.destroyed ++ st.1.filter BridgeRule.isBridge)).Perm
      (s.rules ++ s.destroyed ++ st.2.rules.filter fun rule => ¬ rule.id < s.made) := by
    have hnew : st.2.rules.Perm
        (s.kept st.2.rules ++ st.2.rules.filter fun rule => ¬ rule.id < s.made) := by
      simp only [kept, decide_not]
      exact (filter_append_perm _ _).symm
    have hold : (st.1.filter BridgeRule.isBridge ++ st.1.filter (fun r => !r.isBridge)).Perm
        st.1 := filter_append_perm _ _
    rw [h.destroyed]
    classical
    rw [perm_iff_count]
    intro r
    have h1 := hnew.count_eq r
    have h2 := hold.count_eq r
    have h3 := h.perm.count_eq r
    simp only [count_append] at h1 h2 h3 ⊢
    omega
  have hsym : ∀ {a b : BridgeRule}, a.id ≠ b.id → b.id ≠ a.id := fun h => Ne.symm h
  refine ⟨(hsplit.pairwise_iff hsym).mpr (pairwise_append.mpr ⟨hinv.1, h.fresh, ?_⟩), ?_⟩
  · intro a ha b hb
    have hlt := hinv.2 a ha
    have hge : ¬ b.id < s.made := by simpa using (mem_filter.mp hb).2
    omega
  intro rule hrule
  rcases mem_append.mp (hsplit.subset hrule) with hold | hnew
  · exact Nat.lt_of_lt_of_le (hinv.2 rule hold) h.made
  · exact h.bound rule (mem_filter.mp hnew).1

/-! ### Every router -/

theorem inv_new : new.Inv := by
  refine ⟨pairwise_singleton _ _, ?_⟩
  intro rule hrule
  obtain rfl := mem_singleton.mp hrule
  exact Nat.one_pos

theorem Inv.prepend (h : s.Inv) (config : Option JsonObject)
    (conditions : List RouterMatch) (target : RuleTarget) :
    (s.prepend config conditions target).Inv := by
  refine ⟨pairwise_cons.mpr ⟨fun rule hrule => ?_, h.1⟩, fun rule hrule => ?_⟩
  · have := h.2 rule hrule
    dsimp only
    omega
  · rcases mem_cons.mp hrule with rfl | hrule
    · exact Nat.lt_succ_self _
    · exact Nat.lt_succ_of_lt (h.2 rule hrule)

theorem Inv.step (h : s.Inv) (template : JsonObject → Bool)
    (e : RouterRulesEvent) : (s.step template e).Inv := by
  cases e with
  | setBridges bridges => exact (setBridges_reloaded h template bridges).inv
  | _ => exact Inv.prepend h _ _ _

theorem inv_run (es : List RouterRulesEvent) :
    (run (step template) new es).Inv := by
  induction es using List.reverseRecOn with
  | nil => exact inv_new
  | append_singleton es e ih =>
    rw [run_append]
    exact ih.step template e

/-- **Every reload of every router** puts a rule for each configuration in front of the rules that are
    not of a bridge, keeps the rules that it can and destroys the others once. -/
theorem run_setBridges (template : JsonObject → Bool) (es : List RouterRulesEvent)
    (configs : List JsonObject) :
    Reloaded (run (step template) new es) configs
      (run (step template) new (es ++ [.setBridges configs])) := by
  rw [run_append]
  exact setBridges_reloaded (inv_run template es) template configs

end RouterRules

end Cockpit
