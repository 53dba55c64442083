import Mathlib.Data.Option.Basic
import PlaneAccess.Json.Read
import PlaneAccess.Proofs.Except
import PlaneAccess.Proofs.Json.Quoted

/-!
# Readers that mirror each other

A reader of checked data and one of the data as it is written take the same
steps, and the second one reads the image of what the first one reads. The
relation holds between records if it holds between their fields
(`mirrors_object`, `Mirrors.record`).
-/

namespace PlaneAccess.Json

variable {α β α' β' σ τ : Type}

/-! ## Results of readers -/

theorem bind_of_ok {r : Reader α} {g : α → Reader β} {cs mid : List Char} {a : α}
    (h : r cs = .ok (a, mid)) : (r >>= g) cs = g a mid := by
  change (r cs >>= fun p => g p.1 p.2) = _
  rw [h]
  rfl

theorem reads_bind {r : Reader α} {g : α → Reader β} {cs rest : List Char} {b : β} :
    (r >>= g) cs = .ok (b, rest) ↔
      ∃ a mid, r cs = .ok (a, mid) ∧ g a mid = .ok (b, rest) := by
  change (r cs >>= fun p => g p.1 p.2) = _ ↔ _
  rw [bind_eq_ok]
  constructor
  · rintro ⟨p, hp, hg⟩
    exact ⟨p.1, p.2, hp, hg⟩
  · rintro ⟨a, mid, hr, hg⟩
    exact ⟨(a, mid), hr, hg⟩

def Fails (r : Reader α) : Prop := ∀ cs a rest, r cs ≠ .ok (a, rest)

theorem fails_malformed : Fails (malformed : Reader α) := by
  intro cs a rest h
  cases h

theorem fails_wrong (p : Problem) : Fails (wrong p : Reader α) := by
  intro cs a rest h
  cases h

theorem Fails.bind {r : Reader α} (h : Fails r) (g : α → Reader β) : Fails (r >>= g) := by
  intro cs b rest hb
  obtain ⟨a, mid, hr, -⟩ := reads_bind.mp hb
  exact h cs a mid hr

theorem fails_bind {g : α → Reader β} (r : Reader α) (h : ∀ a, Fails (g a)) :
    Fails (r >>= g) := by
  intro cs b rest hb
  obtain ⟨a, mid, -, hg⟩ := reads_bind.mp hb
  exact h a mid b rest hg

theorem fails_wrongType (expected : String) : Fails (wrongType expected : Reader α) := by
  refine fails_bind get fun cs => ?_
  split
  · exact fails_bind _ fun _ => fails_wrong _
  · exact fails_bind _ fun _ => fails_wrong _
  · exact fails_bind _ fun _ => fails_wrong _
  · exact fails_bind _ fun _ => fails_wrong _
  · exact fails_wrong _
  · exact fails_wrong _
  · split
    · exact fails_bind _ fun _ => fails_wrong _
    · exact fails_malformed
  · exact fails_malformed

/-! ## Mirrors -/

/-- Some reader reads a value just when another one reads the image of the value,
and both leave the same text. -/
def Mirrors (f : α → β) (r : Reader α) (q : Reader β) : Prop :=
  ∀ cs a rest, r cs = .ok (a, rest) ↔ q cs = .ok (f a, rest)

/-- What is read on the way to an image is an image. -/
def Reflects (f : α → β) (f' : α' → β') (h : β → Reader β') : Prop :=
  ∀ b cs a' rest, h b cs = .ok (f' a', rest) → ∃ a, f a = b

theorem mirrors_of_fails {f : α → β} {r : Reader α} {q : Reader β} (hr : Fails r)
    (hq : Fails q) : Mirrors f r q := by
  intro cs a rest
  exact iff_of_false (hr cs a rest) (hq cs (f a) rest)

theorem mirrors_wrong {f : α → β} (p p' : Problem) : Mirrors f (wrong p) (wrong p') :=
  mirrors_of_fails (fails_wrong p) (fails_wrong p')

theorem mirrors_pure {f : α → β} (hf : f.Injective) (a : α) :
    Mirrors f (pure a) (pure (f a)) := by
  intro cs a' rest
  constructor
  · intro h
    cases h
    rfl
  · intro h
    obtain ⟨hfa, rfl⟩ := Prod.mk.inj (Except.ok.inj h)
    rw [hf hfa]
    rfl

theorem Mirrors.bind {f : α → β} {f' : α' → β'} {r : Reader α} {q : Reader β}
    {g : α → Reader α'} {h : β → Reader β'} (hr : Mirrors f r q)
    (hg : ∀ a, Mirrors f' (g a) (h (f a))) (hback : Reflects f f' h) :
    Mirrors f' (r >>= g) (q >>= h) := by
  intro cs a' rest
  rw [reads_bind, reads_bind]
  constructor
  · rintro ⟨a, mid, hra, hga⟩
    exact ⟨f a, mid, (hr cs a mid).mp hra, (hg a mid a' rest).mp hga⟩
  · rintro ⟨b, mid, hqb, hhb⟩
    obtain ⟨a, rfl⟩ := hback b mid a' rest hhb
    exact ⟨a, mid, (hr cs a mid).mpr hqb, (hg a mid a' rest).mpr hhb⟩

theorem mirrors_bind_left {f : α' → β'} {g : α → Reader α'} {h : α → Reader β'} (r : Reader α)
    (hg : ∀ a, Mirrors f (g a) (h a)) : Mirrors f (r >>= g) (r >>= h) :=
  Mirrors.bind (f := id) (fun _ _ _ => Iff.rfl) hg fun b _ _ _ _ => ⟨b, rfl⟩

theorem Mirrors.ite {f : α → β} {r r' : Reader α} {q q' : Reader β} {c : Prop} [Decidable c]
    (h : Mirrors f r q) (h' : Mirrors f r' q') :
    Mirrors f (if c then r else r') (if c then q else q') := by
  split
  · exact h
  · exact h'

/-! ## Parts of records -/

theorem Mirrors.memberValue {f : α → β} {r : Reader α} {q : Reader β} (h : Mirrors f r q) :
    Mirrors f (memberValue r) (memberValue q) :=
  mirrors_bind_left _ fun _ => h

theorem Mirrors.element {f : α → β} {r : Reader α} {q : Reader β} (h : Mirrors f r q) (i : Nat)
    (expected : String) : Mirrors f (element i expected r) (element i expected q) :=
  mirrors_bind_left _ fun _ => h.ite (mirrors_wrong _ _)

section

variable {f : σ → τ} {member : String → σ → Reader σ} {member' : String → τ → Reader τ}

theorem reflects_members (hback : ∀ key, Reflects f f (member' key)) (fuel : Nat) (first : Bool) :
    Reflects f f (members member' fuel first) := by
  induction fuel generalizing first with
  | zero =>
    intro t cs s rest h
    cases h
  | succ fuel ih =>
    intro t cs s rest h
    obtain ⟨more, mid, -, h⟩ := reads_bind.mp h
    cases more with
    | false =>
      cases h
      exact ⟨s, rfl⟩
    | true =>
      obtain ⟨key, mid', -, h⟩ := reads_bind.mp h
      obtain ⟨t', mid'', hmember, h⟩ := reads_bind.mp h
      obtain ⟨s', rfl⟩ := ih false t' mid'' s rest h
      exact hback key t mid' s' mid'' hmember

theorem mirrors_members (hf : f.Injective)
    (hm : ∀ key s, Mirrors f (member key s) (member' key (f s)))
    (hback : ∀ key, Reflects f f (member' key)) (fuel : Nat) (first : Bool) (s : σ) :
    Mirrors f (members member fuel first s) (members member' fuel first (f s)) := by
  induction fuel generalizing first s with
  | zero => exact mirrors_of_fails fails_malformed fails_malformed
  | succ fuel ih =>
    refine mirrors_bind_left _ fun more => Mirrors.ite ?_ (mirrors_pure hf s)
    refine mirrors_bind_left _ fun key => ?_
    exact (hm key s).bind (ih false) (reflects_members hback fuel false)

theorem mirrors_object (hf : f.Injective)
    (hm : ∀ key s, Mirrors f (member key s) (member' key (f s)))
    (hback : ∀ key, Reflects f f (member' key)) (s : σ) :
    Mirrors f (object s member) (object (f s) member') := by
  refine mirrors_bind_left _ fun _ => mirrors_bind_left _ fun cs => ?_
  exact mirrors_members hf hm hback (cs.length + 1) true s

end

theorem Mirrors.record {f : α → β} (hf : f.Injective) {r r' : Reader α} {q q' : Reader β}
    (h : Mirrors f r q) (h' : Mirrors f r' q') (expected : String) :
    Mirrors f (record expected r r') (record expected q q') := by
  refine mirrors_bind_left _ fun c => ?_
  have hmark : ∀ (m : Char) {r : Reader α} {q : Reader β}, Mirrors f r q →
      Mirrors f (r >>= fun a => takeMark m >>= fun _ => pure a)
        (q >>= fun b => takeMark m >>= fun _ => pure b) := by
    intro m r q h
    refine h.bind (fun a => mirrors_bind_left _ fun _ => mirrors_pure hf a) ?_
    intro b cs a rest hb
    obtain ⟨_, mid, -, hb⟩ := reads_bind.mp hb
    cases hb
    exact ⟨a, rfl⟩
  split
  · exact mirrors_bind_left _ fun _ => hmark ']' h
  · exact hmark '\x7d' h'
  · exact mirrors_of_fails (fails_wrongType _) (fails_wrongType _)

/-! ## What is written -/

theorem takeString_of_body {cs rest w : List Char} (h : stringBody cs = some (w, rest)) :
    takeString ('"' :: cs) = .ok (String.ofList w, rest) := by
  have hget : (get : Reader (List Char)) ('"' :: cs) = .ok ('"' :: cs, '"' :: cs) := rfl
  rw [takeString, bind_of_ok hget]
  simp only [h]
  rfl

theorem takeString_quoted (s : String) (rest : List Char) :
    takeString ((quoted s).toList ++ rest) = .ok (s, rest) := by
  have hbody := takeString_of_body (stringBody_quoted s.toList rest)
  rw [String.ofList_toList] at hbody
  rw [toList_quoted, List.cons_append, List.append_assoc]
  exact hbody

theorem string_quoted (expected s : String) (rest : List Char) :
    string expected ((quoted s).toList ++ rest) = .ok (s, rest) := by
  rw [← takeString_quoted s rest, toList_quoted]
  rfl

theorem element_first (expected : String) (r : Reader α) (s : String) (rest : List Char) :
    element 0 expected r ((quoted s).toList ++ rest) = r ((quoted s).toList ++ rest) := by
  have hnext : nextElement true ((quoted s).toList ++ rest) =
      .ok (true, (quoted s).toList ++ rest) := by
    rw [toList_quoted]
    rfl
  exact bind_of_ok hnext

theorem element_comma (i : Nat) (expected : String) (r : Reader α) (s : String)
    (rest : List Char) :
    element (i + 1) expected r (',' :: ((quoted s).toList ++ rest)) =
      r ((quoted s).toList ++ rest) := by
  have hnext : nextElement false (',' :: ((quoted s).toList ++ rest)) =
      .ok (true, (quoted s).toList ++ rest) := by
    rw [toList_quoted]
    rfl
  exact bind_of_ok hnext

theorem nextMember_first (key : String) (rest : List Char) :
    nextMember true ((quoted key).toList ++ rest) = .ok (true, (quoted key).toList ++ rest) := by
  rw [toList_quoted]
  rfl

theorem nextMember_comma (key : String) (rest : List Char) :
    nextMember false (',' :: ((quoted key).toList ++ rest)) =
      .ok (true, (quoted key).toList ++ rest) := by
  rw [toList_quoted]
  rfl

theorem memberValue_mark (r : Reader α) (cs : List Char) : memberValue r (':' :: cs) = r cs :=
  rfl

theorem members_of_next {member : String → σ → Reader σ} {first : Bool} {key : String} {s s' : σ}
    {cs mid rest : List Char}
    (hnext : nextMember first cs = .ok (true, (quoted key).toList ++ mid))
    (hmember : member key s mid = .ok (s', rest)) (fuel : Nat) :
    members member (fuel + 1) first s cs = members member fuel false s' rest := by
  rw [members, bind_of_ok hnext]
  change (takeString >>= _) ((quoted key).toList ++ mid) = _
  rw [bind_of_ok (takeString_quoted key mid), bind_of_ok hmember]

/-- An object is read if its members are read in no more steps than there are
characters. -/
theorem object_of_members {member : String → σ → Reader σ} {start s : σ} {cs rest : List Char}
    {n : Nat} (hn : n ≤ cs.length + 1)
    (h : ∀ fuel, members member (fuel + n) true start cs = .ok (s, rest)) :
    object start member ('\x7b' :: cs) = .ok (s, rest) := by
  obtain ⟨fuel, hfuel⟩ := Nat.exists_eq_add_of_le' hn
  change members member (cs.length + 1) true start cs = _
  rw [hfuel]
  exact h fuel

theorem record_object {r q : Reader α} {cs rest : List Char} {a : α}
    (h : q ('\x7b' :: cs) = .ok (a, '\x7d' :: rest)) (expected : String) :
    record expected r q ('\x7b' :: cs) = .ok (a, rest) := by
  change (q >>= fun a => takeMark '\x7d' >>= fun _ => pure a) ('\x7b' :: cs) = _
  rw [bind_of_ok h]
  rfl

theorem record_array {r q : Reader α} {cs rest : List Char} {a : α}
    (h : r cs = .ok (a, ']' :: rest)) (expected : String) :
    record expected r q ('[' :: cs) = .ok (a, rest) := by
  change (r >>= fun a => takeMark ']' >>= fun _ => pure a) cs = _
  rw [bind_of_ok h]
  rfl

/-! ## Whole texts -/

theorem read_eq_ok {r : Reader α} {t : String} {a : α} :
    read r t = .ok a ↔ ∃ rest, r t.toList = .ok (a, rest) ∧ rest.all isSpace = true := by
  rw [read, bind_eq_ok]
  constructor
  · rintro ⟨⟨a', rest⟩, hr, h⟩
    by_cases hspace : rest.all isSpace = true
    · simp only [hspace, if_true] at h
      cases h
      exact ⟨rest, hr, hspace⟩
    · simp only [hspace] at h
      cases h
  · rintro ⟨rest, hr, hspace⟩
    refine ⟨(a, rest), hr, ?_⟩
    simp only [hspace, if_true]
    rfl

theorem Mirrors.read {f : α → β} {r : Reader α} {q : Reader β} (h : Mirrors f r q) (t : String)
    (a : α) : read r t = .ok a ↔ read q t = .ok (f a) := by
  rw [read_eq_ok, read_eq_ok]
  exact exists_congr fun rest => and_congr_left' (h t.toList a rest)

end PlaneAccess.Json
