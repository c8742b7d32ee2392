import Mathlib.Data.List.Basic
import TypedExports.FileSystem.Basic
import TypedExports.Proofs.FileSystem.Path

/-!
# Walks and files

`Leads` says what one step of a walk can do, and `Advances` what a walk comes
to before it follows a link. A walk that succeeds is not disturbed by a file
that is put down somewhere, so that the name under which a file was written
leads to it afterwards (`written_of_destination`). Only a step to a name can
end at a file, and no link changes the last step of a path unless it stands
there; so the path of a file ends in a name (`exists_lastComponent_of_read`).
-/

namespace TypedExports

namespace FileSystem

variable {fs : FileSystem} {working place place' : Place} {location : Location}
  {content : ByteArray}

/-! ## Steps -/

theorem bind_eq_ok_iff {α β : Type} {x : Except SystemError α} {f : α → Except SystemError β}
    {b : β} : x >>= f = .ok b ↔ ∃ a, x = .ok a ∧ f a = .ok b := by
  cases x with
  | error cause => simp [bind, Except.bind]
  | ok a => simp [bind, Except.bind]

theorem allow_eq_ok_iff {access : Access} {u : Unit} :
    fs.allow access location = .ok u ↔ fs.refusal access location = none := by
  unfold allow
  cases fs.refusal access location <;> simp

theorem enter_eq_ok_iff :
    fs.enter location = .ok place ↔
      fs.get? location = some .directory ∧ place = .existing location := by
  unfold enter
  split
  · next hdir => simp [hdir, eq_comm]
  · next hdir => exact iff_of_false nofun fun h => hdir h.1

theorem find_eq_ok_iff {name : Bytes} {found : Option Entry} :
    fs.find location name = .ok found ↔
      name.length ≤ nameLimit ∧ found = fs.get? (location ++ [name]) := by
  unfold find
  split
  · next hlong => exact iff_of_false nofun fun h => Nat.not_le.mpr hlong h.1
  · next hshort => simp [Nat.not_lt.mp hshort, eq_comm]

/-- A directory in which a name may be looked for. -/
def Open (fs : FileSystem) (location : Location) : Prop :=
  fs.get? location = some .directory ∧ fs.refusal .search location = none

theorem search_eq_ok_iff {u : Unit} : fs.search location = .ok u ↔ fs.Open location := by
  unfold search Open
  split
  · next hdir => simp [allow_eq_ok_iff, hdir]
  · next hdir => exact iff_of_false nofun fun h => hdir h.1

/-- A step of a walk from one place to another. -/
inductive Leads (fs : FileSystem) : Place → Path.Step → Place → Prop
  | stay (parent : Location) : Leads fs (.removed parent) .here (.removed parent)
  | leave {parent : Location} (hdir : fs.get? parent = some .directory) :
      Leads fs (.removed parent) .up (.existing parent)
  | here {location : Location} (hopen : fs.Open location) :
      Leads fs (.existing location) .here (.existing location)
  | up {location : Location} (hopen : fs.Open location)
      (hdir : fs.get? location.dropLast = some .directory) :
      Leads fs (.existing location) .up (.existing location.dropLast)
  | into {location : Location} {name : Bytes} (hopen : fs.Open location)
      (hname : name.length ≤ nameLimit) (hsome : (fs.get? (location ++ [name])).isSome) :
      Leads fs (.existing location) (.into name) (.existing (location ++ [name]))

theorem step_eq_ok_iff {s : Path.Step} :
    fs.step place s = .ok place' ↔ Leads fs place s place' := by
  cases place with
  | removed parent =>
      cases s with
      | here =>
          constructor
          · intro h
            cases h
            exact .stay parent
          · intro h
            cases h
            rfl
      | up =>
          show fs.enter parent = .ok place' ↔ _
          rw [enter_eq_ok_iff]
          constructor
          · rintro ⟨hdir, rfl⟩
            exact .leave hdir
          · intro h
            cases h with
            | leave hdir => exact ⟨hdir, rfl⟩
      | into name => exact iff_of_false nofun nofun
  | existing location =>
      cases s with
      | here =>
          simp only [step, bind_eq_ok_iff, search_eq_ok_iff]
          constructor
          · rintro ⟨_, hopen, h⟩
            cases h
            exact .here hopen
          · intro h
            cases h with
            | here hopen => exact ⟨(), hopen, rfl⟩
      | up =>
          simp only [step, bind_eq_ok_iff, search_eq_ok_iff, enter_eq_ok_iff]
          constructor
          · rintro ⟨_, hopen, hdir, rfl⟩
            exact .up hopen hdir
          · intro h
            cases h with
            | up hopen hdir => exact ⟨(), hopen, hdir, rfl⟩
      | into name =>
          simp only [step, bind_eq_ok_iff, search_eq_ok_iff, find_eq_ok_iff]
          constructor
          · rintro ⟨_, hopen, found, ⟨hname, rfl⟩, h⟩
            split at h
            · next hsome =>
                cases h
                exact .into hopen hname (by rw [hsome]; rfl)
            · cases h
          · intro h
            cases h with
            | into hopen hname hsome =>
                obtain ⟨entry, hentry⟩ := Option.isSome_iff_exists.mp hsome
                exact ⟨(), hopen, _, ⟨hname, rfl⟩, by rw [hentry]⟩

/-- Only a step to a name can end elsewhere than in a directory. -/
theorem Leads.directory {s : Path.Step} (h : Leads fs place s (.existing location))
    (hs : ∀ name, s ≠ .into name) : fs.get? location = some .directory := by
  cases h with
  | leave hdir => exact hdir
  | here hopen => exact hopen.1
  | up _ hdir => exact hdir
  | into => exact absurd rfl (hs _)

/-! ## Walks up to a link -/

theorem link?_eq_none_iff :
    fs.link? (.existing location) = none ↔ ∀ held, fs.get? location ≠ some (.link held) := by
  simp only [link?]
  rcases fs.get? location with _ | (_ | _ | held) <;> simp

theorem link?_eq_some_iff {held : Bytes} :
    fs.link? place = some (location, held) ↔
      place = .existing location ∧ fs.get? location = some (.link held) := by
  cases place with
  | removed parent => exact iff_of_false nofun nofun
  | existing l =>
      simp only [link?, Place.existing.injEq]
      constructor
      · intro h
        split at h
        · next hlink =>
            cases h
            exact ⟨rfl, hlink⟩
        · cases h
      · rintro ⟨rfl, hlink⟩
        rw [hlink]

/-- What a walk along the steps comes to, at its end or at a link before. -/
inductive Advances (fs : FileSystem) (access : Access) (endsInSlash : Bool) :
    Place → List Path.Step → Stop → Prop
  | stay (place : Place) : Advances fs access endsInSlash place [] (.goal (.place place))
  | name {location : Location} {name : Bytes} (hopen : fs.Open location)
      (hfile : ¬ (access = .write ∧ endsInSlash = true))
      (hname : name.length ≤ nameLimit)
      (hlink : fs.link? (.existing (location ++ [name])) = none) :
      Advances fs access endsInSlash (.existing location) [.into name]
        (.goal (.name location name endsInSlash))
  | lastLink {location : Location} {name held : Bytes} (hopen : fs.Open location)
      (hfile : ¬ (access = .write ∧ endsInSlash = true))
      (hname : name.length ≤ nameLimit)
      (hlink : fs.link? (.existing (location ++ [name])) = some (location ++ [name], held)) :
      Advances fs access endsInSlash (.existing location) [.into name]
        (.link (location ++ [name]) held [])
  | link {place next : Place} {s : Path.Step} {rest : List Path.Step} {location : Location}
      {held : Bytes} (hmore : ∀ name, s = .into name → rest ≠ []) (hleads : Leads fs place s next)
      (hlink : fs.link? next = some (location, held)) :
      Advances fs access endsInSlash place (s :: rest) (.link location held rest)
  | pass {place next : Place} {s : Path.Step} {rest : List Path.Step} {stop : Stop}
      (hmore : ∀ name, s = .into name → rest ≠ []) (hleads : Leads fs place s next)
      (hlink : fs.link? next = none) (hrest : Advances fs access endsInSlash next rest stop) :
      Advances fs access endsInSlash place (s :: rest) stop

variable {access : Access} {endsInSlash : Bool} {stop : Stop} {goal : Goal}

theorem settle_eq_ok_iff {name : Bytes} :
    fs.settle access endsInSlash place name = .ok stop ↔
      Advances fs access endsInSlash place [.into name] stop := by
  cases place with
  | removed parent =>
      refine iff_of_false nofun ?_
      intro h
      cases h with
      | link hmore => exact hmore name rfl rfl
      | pass hmore => exact hmore name rfl rfl
  | existing location =>
      simp only [settle, bind_eq_ok_iff, search_eq_ok_iff]
      constructor
      · rintro ⟨_, hopen, h⟩
        split at h
        · cases h
        · next hfile =>
            simp only [bind_eq_ok_iff, find_eq_ok_iff] at h
            obtain ⟨found, ⟨hname, rfl⟩, h⟩ := h
            split at h
            · next held hlink =>
                cases h
                exact .lastLink hopen hfile hname (link?_eq_some_iff.mpr ⟨rfl, hlink⟩)
            · next hlink =>
                cases h
                exact .name hopen hfile hname (link?_eq_none_iff.mpr hlink)
      · intro h
        cases h with
        | name hopen hfile hname hlink =>
            refine ⟨(), hopen, ?_⟩
            simp only [if_neg hfile, bind_eq_ok_iff, find_eq_ok_iff]
            refine ⟨_, ⟨hname, rfl⟩, ?_⟩
            split
            · next held hheld => exact absurd hheld (link?_eq_none_iff.mp hlink held)
            · rfl
        | lastLink hopen hfile hname hlink =>
            refine ⟨(), hopen, ?_⟩
            simp only [if_neg hfile, bind_eq_ok_iff, find_eq_ok_iff]
            exact ⟨_, ⟨hname, rfl⟩, by rw [(link?_eq_some_iff.mp hlink).2]⟩
        | link hmore => exact absurd rfl (hmore name rfl)
        | pass hmore => exact absurd rfl (hmore name rfl)

theorem advance_eq_ok_iff {steps : List Path.Step} :
    fs.advance access endsInSlash place steps = .ok stop ↔
      Advances fs access endsInSlash place steps stop := by
  induction place, steps using advance.induct generalizing stop with
  | case1 place =>
      rw [advance]
      constructor
      · intro h
        cases h
        exact .stay place
      · intro h
        cases h
        rfl
  | case2 place name =>
      rw [advance]
      exact settle_eq_ok_iff
  | case3 place s rest hmore ih =>
      rw [advance.eq_3 _ _ _ _ _ _ hmore]
      simp only [bind_eq_ok_iff, step_eq_ok_iff]
      constructor
      · rintro ⟨next, hleads, h⟩
        split at h
        · next location held hlink =>
            cases h
            exact .link hmore hleads hlink
        · next hlink => exact .pass hmore hleads hlink ((ih next).mp h)
      · intro h
        cases h with
        | name => exact absurd rfl (hmore _ rfl)
        | lastLink => exact absurd rfl (hmore _ rfl)
        | link _ hleads hlink => exact ⟨_, hleads, by rw [hlink]⟩
        | pass _ hleads hlink hrest =>
            refine ⟨_, hleads, ?_⟩
            rw [hlink]
            exact (ih _).mpr hrest

/-- A walk that comes to a name ends in the step to it. -/
theorem Advances.of_name {steps : List Path.Step} {directory : Location} {file : Bytes}
    {asked : Bool}
    (h : Advances fs access endsInSlash place steps (.goal (.name directory file asked))) :
    (∃ front, steps = front ++ [.into file]) ∧ asked = endsInSlash ∧
      ¬ (access = .write ∧ endsInSlash = true) := by
  generalize hstop : Stop.goal (.name directory file asked) = stop at h
  induction h with
  | stay => cases hstop
  | name _ hfile =>
      cases hstop
      exact ⟨⟨[], rfl⟩, rfl, hfile⟩
  | lastLink => cases hstop
  | link => cases hstop
  | pass _ _ _ _ ih =>
      obtain ⟨⟨front, hfront⟩, hrest⟩ := ih hstop
      exact ⟨⟨_ :: front, by rw [hfront, List.cons_append]⟩, hrest⟩

/-- A walk that comes to a link does so by a step to a name. -/
theorem Advances.of_link {steps rest : List Path.Step} {held : Bytes}
    (h : Advances fs access endsInSlash place steps (.link location held rest)) :
    ∃ front name, steps = front ++ .into name :: rest := by
  generalize hstop : Stop.link location held rest = stop at h
  induction h with
  | stay => cases hstop
  | name => cases hstop
  | lastLink =>
      cases hstop
      exact ⟨[], _, rfl⟩
  | @link _ _ s _ _ _ _ hleads hlink =>
      cases hstop
      obtain ⟨rfl, hentry⟩ := link?_eq_some_iff.mp hlink
      by_cases hinto : ∃ name, s = .into name
      · obtain ⟨name, rfl⟩ := hinto
        exact ⟨[], name, rfl⟩
      · have hdir := hleads.directory fun name hs => hinto ⟨name, hs⟩
        rw [hdir] at hentry
        cases hentry
  | pass _ _ _ _ ih =>
      obtain ⟨front, name, hfront⟩ := ih hstop
      exact ⟨_ :: front, name, by rw [hfront, List.cons_append]⟩

/-! ## Walks through links -/

theorem locate_succ_eq_ok_iff {walks : Nat} {p : Path} :
    fs.locate access (walks + 1) working p = .ok goal ↔
      Advances fs access p.endsInSlash (start working p) p.steps (.goal goal) ∨
      ∃ location held rest target,
        Advances fs access p.endsInSlash (start working p) p.steps (.link location held rest) ∧
          fs.refusal .follow location = none ∧ path held = .ok target ∧
          fs.locate access walks (.existing location.dropLast)
            (target.through rest p.endsInSlash) = .ok goal := by
  simp only [locate, bind_eq_ok_iff, advance_eq_ok_iff]
  constructor
  · rintro ⟨stop, hstop, h⟩
    cases stop with
    | goal found =>
        cases h
        exact Or.inl hstop
    | link location held rest =>
        simp only [bind_eq_ok_iff, allow_eq_ok_iff] at h
        obtain ⟨_, hfollow, target, htarget, hwalk⟩ := h
        exact Or.inr ⟨location, held, rest, target, hstop, hfollow, htarget, hwalk⟩
  · rintro (hstop | ⟨location, held, rest, target, hstop, hfollow, htarget, hwalk⟩)
    · exact ⟨_, hstop, rfl⟩
    · refine ⟨_, hstop, ?_⟩
      simp only [bind_eq_ok_iff, allow_eq_ok_iff]
      exact ⟨(), hfollow, target, htarget, hwalk⟩

/-- A path that leads to a name, through links or not, ends in a step to a
name. -/
theorem locate_name {walks : Nat} {p : Path} {directory : Location} {file : Bytes} {asked : Bool}
    (h : fs.locate access walks working p = .ok (.name directory file asked)) :
    (∃ front name, p.steps = front ++ [.into name]) ∧ (p.endsInSlash = true → asked = true) ∧
      ¬ (access = .write ∧ asked = true) := by
  induction walks generalizing working p with
  | zero => cases h
  | succ walks ih =>
      rcases locate_succ_eq_ok_iff.mp h with hstop | ⟨l, held, rest, target, hstop, _, _, hwalk⟩
      · obtain ⟨⟨front, hfront⟩, rfl, hfile⟩ := hstop.of_name
        exact ⟨⟨front, file, hfront⟩, id, hfile⟩
      · obtain ⟨hsteps, hslash, hfile⟩ := ih hwalk
        refine ⟨?_, fun hasked => hslash (by simp [Path.through, hasked]), hfile⟩
        obtain ⟨front, name, hpassed⟩ := hstop.of_link
        rcases rest.eq_nil_or_concat' with rfl | ⟨rest, s, rfl⟩
        · exact ⟨front, name, hpassed⟩
        · obtain ⟨front', name', hthrough⟩ := hsteps
          have hlast : (target.steps ++ rest) ++ [s] = front' ++ [.into name'] :=
            (List.append_assoc _ _ _).trans hthrough
          refine ⟨front ++ .into name :: rest, name', ?_⟩
          rw [hpassed, (List.append_inj' hlast rfl).2, List.append_assoc, List.cons_append]

/-- The path leads to the location, and nothing asks for a directory there. -/
def Names (fs : FileSystem) (working : Place) (name : Bytes) (location : Location) : Prop :=
  ∃ directory file, fs.goal .read working name = .ok (.name directory file false) ∧
    location = directory ++ [file]

theorem Names.unique {name : Bytes} {location' : Location} (h : fs.Names working name location)
    (h' : fs.Names working name location') : location = location' := by
  obtain ⟨directory, file, hgoal, rfl⟩ := h
  obtain ⟨directory', file', hgoal', rfl⟩ := h'
  rw [hgoal] at hgoal'
  cases hgoal'
  rfl

/-- What can be read is what the file gives to which the path leads. -/
theorem read_eq_ok_iff {name : Bytes} :
    fs.read working name = .ok content ↔
      ∃ location number, fs.Names working name location ∧
        fs.get? location = some (.file number) ∧ fs.refusal .read location = none ∧
        (fs.file number).read = .ok content := by
  simp only [read, bind_eq_ok_iff]
  constructor
  · rintro ⟨found, hgoal, h⟩
    cases found with
    | place p =>
        cases p with
        | removed parent => cases h
        | existing l =>
            simp only [bind_eq_ok_iff] at h
            obtain ⟨_, _, h⟩ := h
            cases h
    | name directory file asked =>
        simp only at h
        split at h
        · cases h
        · next number hfile =>
            split at h
            · cases h
            · next hasked =>
                rw [bind_eq_ok_iff] at h
                obtain ⟨_, hallow, hread⟩ := h
                obtain rfl : asked = false := by simpa using hasked
                exact ⟨directory ++ [file], number, ⟨directory, file, hgoal, rfl⟩, hfile,
                  allow_eq_ok_iff.mp hallow, hread⟩
        · rw [bind_eq_ok_iff] at h
          obtain ⟨_, _, h⟩ := h
          cases h
  · rintro ⟨_, number, ⟨directory, file, hgoal, rfl⟩, hfile, hallow, hread⟩
    refine ⟨_, hgoal, ?_⟩
    simp only [hfile, Bool.false_eq_true, if_false]
    exact bind_eq_ok_iff.mpr ⟨(), allow_eq_ok_iff.mpr hallow, hread⟩

/-! ## Walks that go on -/

/-- The second file system has whatever a walk through the first one meets. -/
structure Keeps (fs fs' : FileSystem) : Prop where
  directory : ∀ {l}, fs.get? l = some .directory → fs'.get? l = some .directory
  link : ∀ {place}, fs'.link? place = fs.link? place
  isSome : ∀ {l}, (fs.get? l).isSome = true → (fs'.get? l).isSome = true
  refusal : fs'.refusal = fs.refusal

section Keeps

variable {fs' : FileSystem} (hkeeps : fs.Keeps fs')

include hkeeps

theorem Open.mono {l : Location} (h : fs.Open l) : fs'.Open l :=
  ⟨hkeeps.directory h.1, hkeeps.refusal ▸ h.2⟩

theorem Leads.mono {s : Path.Step} (h : Leads fs place s place') : Leads fs' place s place' := by
  cases h with
  | stay parent => exact .stay parent
  | leave hdir => exact .leave (hkeeps.directory hdir)
  | here hopen => exact .here (hopen.mono hkeeps)
  | up hopen hdir => exact .up (hopen.mono hkeeps) (hkeeps.directory hdir)
  | into hopen hname hsome => exact .into (hopen.mono hkeeps) hname (hkeeps.isSome hsome)

/-- A walk that succeeds may be made again, and it may be made to read. -/
theorem Advances.mono {steps : List Path.Step}
    (h : Advances fs access endsInSlash place steps stop) :
    Advances fs' .read endsInSlash place steps stop := by
  have hread : ¬ (Access.read = .write ∧ endsInSlash = true) := nofun
  induction h with
  | stay place => exact .stay place
  | name hopen _ hname hlink =>
      exact .name (hopen.mono hkeeps) hread hname (hkeeps.link.trans hlink)
  | lastLink hopen _ hname hlink =>
      exact .lastLink (hopen.mono hkeeps) hread hname (hkeeps.link.trans hlink)
  | link hmore hleads hlink => exact .link hmore (hleads.mono hkeeps) (hkeeps.link.trans hlink)
  | pass hmore hleads hlink _ ih =>
      exact .pass hmore (hleads.mono hkeeps) (hkeeps.link.trans hlink) ih

theorem locate_mono {walks : Nat} {p : Path} (h : fs.locate access walks working p = .ok goal) :
    fs'.locate .read walks working p = .ok goal := by
  induction walks generalizing working p with
  | zero => cases h
  | succ walks ih =>
      rw [locate_succ_eq_ok_iff] at h ⊢
      rcases h with hstop | ⟨l, held, rest, target, hstop, hfollow, htarget, hwalk⟩
      · exact Or.inl (hstop.mono hkeeps)
      · exact Or.inr ⟨l, held, rest, target, hstop.mono hkeeps, hkeeps.refusal ▸ hfollow, htarget,
          ih hwalk⟩

theorem goal_mono {name : Bytes} (h : fs.goal access working name = .ok goal) :
    fs'.goal .read working name = .ok goal := by
  rw [FileSystem.goal, bind_eq_ok_iff] at h ⊢
  obtain ⟨p, hpath, hlocate⟩ := h
  exact ⟨p, hpath, locate_mono hkeeps hlocate⟩

end Keeps

/-! ## Writing a file -/

/-- Nothing or a file is at the location. -/
def Free (fs : FileSystem) (location : Location) : Prop :=
  fs.get? location = none ∨ ∃ number, fs.get? location = some (.file number)

/-- The file of the number has been written, at the location. It is the file
that was there before, or a new one if nothing was. No other file is changed,
and nothing at any other location. -/
structure WrittenAt (fs fs' : FileSystem) (location : Location) (number : Nat)
    (content : ByteArray) : Prop where
  here : fs'.get? location = some (.file number)
  holds : (fs'.file number).content = content
  before :
    (fs.get? location = some (.file number) ∧
      fs'.file number = (fs.file number).overwrite content) ∨
    (fs.get? location = none ∧ (∀ l, fs.get? l ≠ some (.file number)) ∧
      fs'.file number = .regular content)
  elsewhere : ∀ l, l ≠ location → fs'.get? l = fs.get? l
  others : ∀ n, n ≠ number → fs'.file n = fs.file n
  refusal : fs'.refusal = fs.refusal

theorem get?_overwrite (number : Nat) (l : Location) :
    (fs.overwrite number content).get? l = fs.get? l := by
  cases l <;> rfl

theorem get?_create {l : Location} (hne : location ≠ []) :
    (fs.create location content).get? l =
      if l = location then some (.file fs.count) else fs.get? l := by
  cases l with
  | nil =>
      rw [if_neg (Ne.symm hne)]
      rfl
  | cons name l => rfl

theorem get?_ne_file_count (l : Location) : fs.get? l ≠ some (.file fs.count) := by
  intro h
  cases l with
  | nil => cases h
  | cons name l => exact Nat.lt_irrefl _ (fs.lt_count h)

theorem Free.exists_writtenAt (hfree : fs.Free location) (content : ByteArray) :
    ∃ number, fs.WrittenAt (fs.put location content) location number content := by
  rcases hfree with hnone | ⟨number, hfile⟩
  · have hne : location ≠ [] := by
      rintro rfl
      cases hnone
    refine ⟨fs.count, ?_⟩
    rw [put, hnone]
    exact {
      here := by rw [get?_create hne, if_pos rfl]
      holds := by simp [create, File.content]
      before := Or.inr ⟨hnone, get?_ne_file_count, if_pos rfl⟩
      elsewhere := fun l hl => by rw [get?_create hne, if_neg hl]
      others := fun n hn => if_neg hn
      refusal := rfl }
  · refine ⟨number, ?_⟩
    rw [put, hfile]
    exact {
      here := (get?_overwrite _ _).trans hfile
      holds := by simp [overwrite]
      before := Or.inl ⟨hfile, if_pos rfl⟩
      elsewhere := fun l _ => get?_overwrite _ _
      others := fun n hn => if_neg hn
      refusal := rfl }

/-- Writing a file leaves all directories, all links and all names. -/
theorem WrittenAt.keeps {fs' : FileSystem} {number : Nat}
    (h : fs.WrittenAt fs' location number content) : fs.Keeps fs' := by
  have hwas : ∀ entry, fs.get? location = some entry → entry = .file number := by
    intro entry hentry
    rcases h.before with ⟨hfile, _⟩ | ⟨hnone, _⟩
    · exact Option.some.inj (hentry.symm.trans hfile)
    · rw [hnone] at hentry
      cases hentry
  have hlink : ∀ {l}, fs'.link? (.existing l) = fs.link? (.existing l) := by
    intro l
    by_cases hl : l = location
    · subst hl
      have hnone : fs.link? (.existing l) = none :=
        link?_eq_none_iff.mpr fun held hheld => by cases hwas _ hheld
      rw [hnone, link?_eq_none_iff, h.here]
      exact nofun
    · simp only [link?, h.elsewhere l hl]
  refine ⟨?_, ?_, ?_, h.refusal⟩
  · intro l hdir
    by_cases hl : l = location
    · rw [hl] at hdir
      cases hwas _ hdir
    · exact (h.elsewhere l hl).trans hdir
  · rintro (l | parent)
    · exact hlink
    · rfl
  · intro l hsome
    by_cases hl : l = location
    · rw [hl, h.here]
      rfl
    · rwa [h.elsewhere l hl]

theorem openFile_eq_ok {directory : Location} {file : Bytes}
    (h : fs.openFile directory file = .ok location) :
    location = directory ++ [file] ∧ fs.Free location := by
  unfold openFile at h
  split at h
  · next hnone =>
      obtain ⟨_, _, h⟩ := bind_eq_ok_iff.mp h
      cases h
      exact ⟨rfl, Or.inl hnone⟩
  · next number hfile =>
      obtain ⟨_, _, h⟩ := bind_eq_ok_iff.mp h
      cases h
      exact ⟨rfl, Or.inr ⟨number, hfile⟩⟩
  · cases h

theorem path_eq_ok {name : Bytes} {p : Path} (h : path name = .ok p) :
    name ≠ [] ∧ p = Path.parse name := by
  unfold path at h
  split at h
  · cases h
  · next hne =>
      split at h
      · cases h
      · cases h
        exact ⟨hne, rfl⟩

theorem goal_name {name : Bytes} {directory : Location} {file : Bytes} {asked : Bool}
    (h : fs.goal access working name = .ok (.name directory file asked)) :
    name ≠ [] ∧ (∃ front file', (Path.parse name).steps = front ++ [.into file']) ∧
      ((Path.parse name).endsInSlash = true → asked = true) ∧
      ¬ (access = .write ∧ asked = true) := by
  rw [FileSystem.goal, bind_eq_ok_iff] at h
  obtain ⟨p, hpath, hlocate⟩ := h
  obtain ⟨hne, rfl⟩ := path_eq_ok hpath
  exact ⟨hne, locate_name hlocate⟩

/-- A name that can be opened for writing leads to where nothing or a file is. -/
theorem destination_eq_ok {name : Bytes} (h : fs.destination working name = .ok location) :
    ∃ directory file, fs.goal .write working name = .ok (.name directory file false) ∧
      location = directory ++ [file] ∧ fs.Free location := by
  rw [destination, bind_eq_ok_iff] at h
  obtain ⟨found, hgoal, h⟩ := h
  cases found with
  | place p => cases h
  | name directory file asked =>
      obtain ⟨_, _, _, hasked⟩ := goal_name hgoal
      obtain ⟨rfl, hfree⟩ := openFile_eq_ok h
      obtain rfl : asked = false := by simpa using hasked
      exact ⟨directory, file, hgoal, rfl, hfree⟩

theorem write_eq (fs : FileSystem) (working : Place) (name : Bytes) (content : ByteArray) :
    fs.write working name content = (fs.destination working name).map (fs.put · content) := by
  unfold write
  cases fs.destination working name <;> rfl

/-- The file to which the path leads has been written. -/
def Written (fs fs' : FileSystem) (working : Place) (name : Bytes) (content : ByteArray) : Prop :=
  ∃ location number, fs'.Names working name location ∧ fs.WrittenAt fs' location number content

theorem written_of_destination {name : Bytes} (h : fs.destination working name = .ok location)
    (content : ByteArray) : Written fs (fs.put location content) working name content := by
  obtain ⟨directory, file, hgoal, rfl, hfree⟩ := destination_eq_ok h
  obtain ⟨number, hwritten⟩ := hfree.exists_writtenAt content
  exact ⟨directory ++ [file], number, ⟨directory, file, goal_mono hwritten.keeps hgoal, rfl⟩,
    hwritten⟩

/-- What is written by one name of a file is what the other names lead to. -/
theorem Written.unique {fs' : FileSystem} {name : Bytes} {content' : ByteArray}
    (h : Written fs fs' working name content) (h' : Written fs fs' working name content') :
    content = content' := by
  obtain ⟨location, number, hnames, hwritten⟩ := h
  obtain ⟨location', number', hnames', hwritten'⟩ := h'
  obtain rfl := hnames.unique hnames'
  have hsame := hwritten.here.symm.trans hwritten'.here
  cases hsame
  exact hwritten.holds.symm.trans hwritten'.holds

/-! ## The names of files -/

/-- **Every file has a name.** The path of a file that can be read ends in the
name of the file. -/
theorem exists_lastComponent_of_read {fs : FileSystem} {working : Place} {path : Text}
    {content : ByteArray} (h : fs.read working (Text.bytes path) = .ok content) :
    ∃ name, Path.IsLastComponent path name ∧
      (Path.parse (Text.bytes path)).fileName? = some (Text.bytes name) := by
  obtain ⟨_, _, ⟨directory, file, hgoal, rfl⟩, _⟩ := read_eq_ok_iff.mp h
  obtain ⟨hne, ⟨front, file', hlast⟩, hslash, _⟩ := goal_name hgoal
  have hend : path.getLast? ≠ some '/' := by
    intro hend
    obtain ⟨front, rfl⟩ := List.getLast?_eq_some_iff.mp hend
    have hasked : (Path.parse (Text.bytes (front ++ ['/']))).endsInSlash = true := by
      rw [Path.parse, Text.bytes_append, Path.bytes_slash_cons]
      exact decide_eq_true List.getLast?_concat
    cases hslash hasked
  obtain ⟨name, hname⟩ := Path.exists_lastComponent (mt Text.bytes_eq_nil_iff.mpr hne) hend
  obtain ⟨steps, hsteps⟩ := hname.steps_parse
  have hstep : Path.Step.ofComponent (Text.bytes name) = .into file' := by
    have hsame := hsteps.symm.trans hlast
    exact List.singleton_inj.mp (List.append_inj' hsame rfl).2
  obtain rfl := Path.Step.eq_of_ofComponent hstep
  refine ⟨name, hname, ?_⟩
  rw [Path.fileName?, hsteps, hstep, List.filter_append]
  simp

end FileSystem

end TypedExports
