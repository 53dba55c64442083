import PlaneAccess.CommandLine.Request
import PlaneAccess.Proofs.Decimal.Digits
import PlaneAccess.Proofs.Text.Utf8

/-!
# The time-out of the environment

Settings take from the environment whatever time-out they can find there, and do
without one otherwise. The command line reads the same variable in the stead of a
switch, so what it says must be a number as it is. The two agree on such numbers,
and all else ends the program (`ofArguments_eq_of_environment`).
-/

namespace PlaneAccess

/-! ## Numbers without blanks -/

namespace Text

theorem trimBlanks_eq_self {cs : List Char} (h : ∀ c ∈ cs, isBlank c = false) :
    trimBlanks cs = cs := by
  have hdrop : ∀ ds : List Char, (∀ c ∈ ds, isBlank c = false) → ds.dropWhile isBlank = ds := by
    intro ds hds
    cases ds with
    | nil => rfl
    | cons d ds => rw [List.dropWhile_cons_of_neg (by simp [hds d List.mem_cons_self])]
  rw [trimBlanks, hdrop cs h, hdrop cs.reverse fun c hc => h c (List.mem_reverse.mp hc),
    List.reverse_reverse]

theorem isBlank_of_digitValue {c : Char} {d : Nat} (h : Decimal.digitValue c = some d) :
    isBlank c = false := by
  -- all digits lie between the digit zero and the letter f
  have hbounds : 48 ≤ c.toNat ∧ c.toNat ≤ 102 := by
    simp only [Decimal.digitValue, Char.isDigit, Char.le_def, Bool.and_eq_true, decide_eq_true_eq,
      UInt32.le_iff_toNat_le] at h
    change 48 ≤ c.val.toNat ∧ c.val.toNat ≤ 102
    split at h
    · rename_i hc
      exact ⟨hc.1, Nat.le_trans hc.2 (by decide)⟩
    split at h
    · rename_i hc
      exact ⟨Nat.le_trans (by decide) hc.1, hc.2⟩
    split at h
    · rename_i hc
      exact ⟨Nat.le_trans (by decide) hc.1, Nat.le_trans hc.2 (by decide)⟩
    · cases h
  rw [isBlank, Bool.eq_false_iff]
  intro hblank
  simp only [Bool.or_eq_true, Bool.and_eq_true, decide_eq_true_eq, beq_iff_eq] at hblank
  omega

end Text

namespace Settings

theorem isBlank_of_natural {cs : List Char} {n : Nat} (h : Decimal.natural 10 cs = some n) :
    ∀ c ∈ cs, Text.isBlank c = false := by
  intro c hc
  cases hd : Decimal.digitValue c with
  | some d => exact Text.isBlank_of_digitValue hd
  | none =>
    rw [Decimal.natural_eq_none hc (Or.inl hd)] at h
    cases h

theorem textOf?_octets (s : String) : textOf? (octets s) = some s := by
  rw [textOf?, octets, Text.mk_toList]
  exact Text.fromUTF8?_toUTF8 s

theorem isBlank_of_natural64 {cs : List Char} {n : Nat} (h : natural64 cs = some n) :
    ∀ c ∈ cs, Text.isBlank c = false := by
  obtain ⟨hn, -⟩ := Option.filter_eq_some_iff.mp h
  split at hn
  · rename_i ds
    intro c hc
    rcases List.mem_cons.mp hc with rfl | hc
    · decide
    · exact isBlank_of_natural hn c hc
  · exact isBlank_of_natural hn

theorem natural64_trimBlanks {cs : List Char} {n : Nat} (h : natural64 cs = some n) :
    natural64 (Text.trimBlanks cs) = some n := by
  rw [Text.trimBlanks_eq_self (isBlank_of_natural64 h)]
  exact h

end Settings

namespace CommandLine

open PlaneAccess.ControlPlane

/-! ## Switches that are not given -/

def Argument.names (o : Switch) : Argument → Bool
  | .long name _ => o.name == name
  | .short letter _ => o.letter? == some letter
  | .separator | .word _ => false

def Request.isCommand : Request → Bool
  | .command _ _ => true
  | _ => false

/-- What reading gives if it goes on has a property, and no command is asked for
if it is decided. -/
def Reading.Meets {α : Type} (P : α → Prop) : Reading α → Prop
  | .ok a => P a
  | .error r => r.isCommand = false

theorem Reading.Meets.next {α β : Type} {P : α → Prop} {Q : β → Prop} {x : Reading α}
    {y : Reading β} (hx : x.Meets P) (herror : ∀ r, x = .error r → y = .error r)
    (hok : ∀ a, x = .ok a → P a → y.Meets Q) : y.Meets Q := by
  cases x with
  | ok a => exact hok a rfl hx
  | error r =>
    rw [herror r rfl]
    exact hx

/-- A switch has not been given, and its value is not what must come next. -/
structure Given.Lacks (g : Given) (o : Switch) : Prop where
  value : g.value? o = none
  awaiting : g.awaiting ≠ some o

namespace Given

variable {g : Given} {o o' : Switch}

theorem empty_lacks (o : Switch) : Given.empty.Lacks o := ⟨rfl, by simp [empty]⟩

theorem Lacks.add (h : g.Lacks o) (hne : o' ≠ o) (v : String) :
    (g.add o' v).Meets (Lacks · o) := by
  rw [Given.add]
  split
  · rfl
  · refine ⟨?_, by simp⟩
    show List.lookup o ((o', v) :: g.switches) = none
    rw [List.lookup_cons, beq_eq_false_iff_ne.mpr (Ne.symm hne)]
    exact h.value

theorem Lacks.addFlag (h : g.Lacks o) (hne : o' ≠ o) (t : Topic) (byName : Bool) :
    (g.addFlag t byName o').Meets (Lacks · o) := by
  cases o' with
  | version => rfl
  | help => rfl
  | _ => exact h.add hne ""

theorem Lacks.addValued (h : g.Lacks o) (hne : o' ≠ o) (v : Option String) :
    (g.addValued o' v).Meets (Lacks · o) := by
  cases v with
  | some v => exact h.add hne v
  | none => exact ⟨h.value, fun heq => hne (Option.some.inj heq)⟩

theorem Lacks.addArgument (h : g.Lacks o) {a : Argument} (ha : a.names o = false) (t : Topic) :
    (g.addArgument t a).Meets (Lacks · o) := by
  cases a with
  | long name v =>
    rw [Given.addArgument]
    split
    · rfl
    · rename_i o' hfind
      have hne : o' ≠ o := by
        rintro rfl
        cases (List.find?_some hfind).symm.trans ha
      split
      · exact h.addValued hne v
      split
      · rfl
      · exact h.addFlag hne t true
  | short letter rest =>
    rw [Given.addArgument]
    split
    · rfl
    · rename_i o' hfind
      have hne : o' ≠ o := by
        rintro rfl
        cases (List.find?_some hfind).symm.trans ha
      split
      · exact h.addValued hne _
      · exact h.addFlag hne t false
  | separator => rfl
  | word s => rfl

theorem Lacks.addWord (h : g.Lacks o) (limit : Nat) (s : String) :
    (g.addWord limit s).Meets (Lacks · o) := by
  rw [Given.addWord]
  split
  · exact ⟨h.value, h.awaiting⟩
  · rfl

theorem Lacks.readWords (h : g.Lacks o) (limit : Nat) (as : List String) :
    (Given.readWords limit g as).Meets (Lacks · o) := by
  induction as generalizing g with
  | nil => exact h
  | cons a as ih =>
    have hword := h.addWord limit a
    rw [Given.readWords]
    refine hword.next (fun r hr => by rw [hr]) fun g hg h => ?_
    rw [hg]
    exact ih h

theorem Lacks.readArguments (h : g.Lacks o) (n : CommandName) {as : List String}
    (has : ∀ a ∈ as, (Argument.ofText a).names o = false) :
    (Given.readArguments n g as).Meets (Lacks · o) := by
  induction as generalizing g with
  | nil =>
    rw [Given.readArguments]
    split
    · rfl
    · exact h
  | cons a as ih =>
    have ih {g : Given} (h : g.Lacks o) := ih h fun b hb => has b (List.mem_cons_of_mem a hb)
    have ha := has a List.mem_cons_self
    rw [Given.readArguments]
    split
    · -- the value of the switch before
      rename_i o' s hawaiting htext
      have hne : o' ≠ o := fun heq => h.awaiting (heq ▸ hawaiting)
      have hadd := h.add hne s
      refine hadd.next (fun r hr => by rw [hr]) fun g hg h => ?_
      rw [hg]
      exact ih h
    · rfl
    · exact h.readWords n.words as
    · rename_i s hawaiting htext
      have hword := h.addWord n.words s
      refine hword.next (fun r hr => by rw [hr]) fun g hg h => ?_
      rw [hg]
      exact ih h
    · have hadd := h.addArgument ha (.command n)
      refine hadd.next (fun r hr => by rw [hr]) fun g hg h => ?_
      rw [hg]
      exact ih h

theorem isCommand_helpOn (words : List String) : (helpOn words).isCommand = false := by
  rw [helpOn]
  split
  · rfl
  · rfl

theorem Lacks.readGlobal (h : g.Lacks o) {as : List String}
    (has : ∀ a ∈ as, (Argument.ofText a).names o = false) :
    (Given.readGlobal g as).Meets fun x => x.2.2.Lacks o := by
  induction as generalizing g with
  | nil => rfl
  | cons a as ih =>
    have hrest : ∀ b ∈ as, (Argument.ofText b).names o = false :=
      fun b hb => has b (List.mem_cons_of_mem a hb)
    have ih {g : Given} (h : g.Lacks o) := ih h hrest
    have ha := has a List.mem_cons_self
    rw [Given.readGlobal]
    split
    · rename_i o' s hawaiting htext
      have hne : o' ≠ o := fun heq => h.awaiting (heq ▸ hawaiting)
      have hadd := h.add hne s
      refine hadd.next (fun r hr => by rw [hr]) fun g hg h => ?_
      rw [hg]
      exact ih h
    · rfl
    · rename_i s hawaiting htext
      split
      · rename_i n hname
        have harguments := (empty_lacks o).readArguments n hrest
        refine harguments.next (fun r hr => by rw [hr]) fun g hg h => ?_
        rw [hg]
        exact h
      · show Request.isCommand _ = false
        split
        · exact isCommand_helpOn as
        · rfl
    · have hadd := h.addArgument ha .program
      refine hadd.next (fun r hr => by rw [hr]) fun g hg h => ?_
      rw [hg]
      exact ih h

end Given

/-! ## Settings and requests -/

def Command.mayWait : Command → Bool
  | .merge _ _ _ | .wait _ => true
  | .contexts _ => false

/-- Whether the time-out of an environment is a number as it is, or there is
none. -/
def saysSeconds (e : Environment) : Bool :=
  e.waitTimeout.all fun os => ((Settings.textOf? os).bind secondsOf?).isSome

/-- A number of seconds is the same time-out for settings as for the command
line. -/
theorem parseTimeout_of_secondsOf? {s : String} {n : Nat} (h : secondsOf? s = some n) :
    Settings.parseTimeout s = limitOf n := by
  rw [Settings.parseTimeout, Settings.natural64_trimBlanks h, limitOf]
  cases n with
  | zero => rfl
  | succ n => rfl

theorem seconds?_of_saysSeconds {g : Given} (hg : g.value? .timeout = none) {e : Environment}
    (h : saysSeconds e = true) :
    ∃ t : Option Nat, g.seconds? e = some t ∧
      t.elim (Settings.ofEnvironment e).waitTimeout limitOf =
        (Settings.ofEnvironment e).waitTimeout := by
  rw [Given.seconds?, hg]
  rw [saysSeconds] at h
  cases hv : e.waitTimeout with
  | none => exact ⟨none, rfl, rfl⟩
  | some os =>
    rw [hv, Option.all_some] at h
    obtain ⟨n, hn⟩ := Option.isSome_iff_exists.mp h
    obtain ⟨s, hs, hn⟩ := Option.bind_eq_some_iff.mp hn
    refine ⟨some n, ?_, ?_⟩
    · simp only [hs, hn, Option.bind_some, Option.map_some]
    · show limitOf n = (e.waitTimeout.bind Settings.textOf?).bind Settings.parseTimeout
      rw [hv, Option.bind_some, hs, Option.bind_some, parseTimeout_of_secondsOf? hn]

theorem seconds?_of_not_saysSeconds {g : Given} (hg : g.value? .timeout = none)
    {e : Environment} (h : saysSeconds e = false) : g.seconds? e = none := by
  rw [Given.seconds?, hg]
  rw [saysSeconds] at h
  cases hv : e.waitTimeout with
  | none =>
    rw [hv] at h
    cases h
  | some os =>
    rw [hv, Option.all_some, Option.isSome_eq_false_iff, Option.isNone_iff_eq_none] at h
    simp only [h, Option.map_none]

theorem exists_given {e : Environment} {args : List String} {s : Settings} {c : Command}
    (hargs : ∀ a ∈ args, (Argument.ofText a).names .timeout = false)
    (h : Request.ofArguments e args = .command s c) (hc : c.mayWait = true) :
    ∃ g n k, Given.readGlobal .empty args = .ok (g, n, k) ∧ n ≠ .contexts ∧
      k.command? n = some c ∧ k.value? .timeout = none ∧
      s.aggregatePath = (settingsWith e (g.path? k) none).aggregatePath := by
  have hmeets := (Given.empty_lacks .timeout).readGlobal hargs
  rw [Request.ofArguments] at h
  cases hread : Given.readGlobal .empty args with
  | error r =>
    rw [hread] at h hmeets
    simp only at h
    subst h
    cases hmeets
  | ok x =>
    obtain ⟨g, n, k⟩ := x
    rw [hread] at h hmeets
    simp only [requestOf] at h
    split at h
    · rename_i c' t hcommand ht
      obtain ⟨rfl, rfl⟩ := Request.command.inj h
      refine ⟨g, n, k, rfl, ?_, hcommand, hmeets.value, rfl⟩
      rintro rfl
      obtain rfl := Option.some.inj hcommand
      cases hc
    · cases h

/-- Arguments without the switch for the time-out that ask for a command that may
wait: whatever the variable for the time-out says, the command is run with the
time-out that settings take from it, as long as it is a number as it is. Such a
number is that many seconds, and zero is no limit. All else is refused, also
where settings find a number between blanks or do without a limit. -/
theorem ofArguments_eq_of_environment {e : Environment} {args : List String} {s : Settings}
    {c : Command} (hargs : ∀ a ∈ args, (Argument.ofText a).names .timeout = false)
    (h : Request.ofArguments { e with waitTimeout := none } args = .command s c)
    (hc : c.mayWait = true) :
    Request.ofArguments e args =
        (if saysSeconds e then
          .command ⟨s.aggregatePath, (Settings.ofEnvironment e).waitTimeout⟩ c
        else .misuse) ∧
      (e.waitTimeout = none → (Settings.ofEnvironment e).waitTimeout = none) ∧
      ∀ (v : String) (n : Nat), e.waitTimeout = some (Settings.octets v) →
        secondsOf? v = some n → (Settings.ofEnvironment e).waitTimeout = limitOf n := by
  obtain ⟨g, n, k, hread, hn, hcommand, hk, hpath⟩ := exists_given hargs h hc
  refine ⟨?_, ?_, ?_⟩
  · rw [Request.ofArguments, hread]
    simp only [requestOf, if_neg hn, hcommand]
    cases hs : saysSeconds e with
    | true =>
      obtain ⟨t, ht, hlimit⟩ := seconds?_of_saysSeconds hk hs
      simp only [ht, if_true, settingsWith, hlimit, hpath]
      rfl
    | false =>
      rw [seconds?_of_not_saysSeconds hk hs]
      rfl
  · intro hv
    show (e.waitTimeout.bind Settings.textOf?).bind Settings.parseTimeout = none
    rw [hv]
    rfl
  · intro v m hv hm
    show (e.waitTimeout.bind Settings.textOf?).bind Settings.parseTimeout = limitOf m
    rw [hv, Option.bind_some, Settings.textOf?_octets, Option.bind_some,
      parseTimeout_of_secondsOf? hm]

/-- A number with a sign and zeros in front, for a command that waits. -/
theorem ofArguments_eq_of_sign :
    Request.ofArguments ⟨none, none, some (Settings.octets "+090")⟩
        ["--debug", "merge", "cp1", "--wait"] =
      .command ⟨Settings.octets ".kube/config", some (.ofSecs 90)⟩
        (.merge ⟨⟨"cp1", by decide +kernel⟩, .k8s⟩ true false) := by
  have hunset : Request.ofArguments ⟨none, none, none⟩ ["--debug", "merge", "cp1", "--wait"] =
      .command ⟨Settings.octets ".kube/config", none⟩
        (.merge ⟨⟨"cp1", by decide +kernel⟩, .k8s⟩ true false) := by
    decide +kernel
  have h := ofArguments_eq_of_environment (e := ⟨none, none, some (Settings.octets "+090")⟩)
    (by decide +kernel) hunset rfl
  rw [h.1, if_pos (by decide +kernel)]
  decide +kernel

/-- A number between blanks is a time-out for settings, but the command line
refuses it. -/
theorem misuse_of_blanks :
    let e : Environment := ⟨none, none, some (Settings.octets " 5 ")⟩
    Request.ofArguments e ["merge", "cp1"] = .misuse ∧
      (Settings.ofEnvironment e).waitTimeout = some (.ofSecs 5) := by
  decide +kernel

end CommandLine

end PlaneAccess
