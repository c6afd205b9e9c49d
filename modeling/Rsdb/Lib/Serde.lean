/-
# Derived serialisation

The data model that `serde` documents for JSON, as far as `derive` goes with it: a
record is an object with a member for each field, an enumeration without data is a
string, an internally tagged one is an object with the tag as a member. A reader
knows the members by their names, in any order, and ignores the others; a name
that comes twice is refused. A field that is not there is an error, unless it is
an option or is marked with a default.

`Serde α` is the two directions for a type with their law: what is written is read
back, and where members of marked fields have been removed, these fields are at
their defaults (`read_remove`). Records and tagged enumerations are put together
from the serialisation of their fields (`Serde.record`, `Tagged.serde`), with the
law of the whole from those of the parts.
-/
import Rsdb.Lib.ByteStream
import Mathlib.Data.List.Nodup
import Mathlib.Data.Nat.Cast.Order.Ring

namespace Rsdb

/-- A value of JSON. Of the numbers there are the whole ones. -/
inductive Json where
  | null
  | bool (b : Bool)
  | num (n : ℤ)
  | str (s : Bytes)
  | arr (items : List Json)
  | obj (members : List (Bytes × Json))

namespace Json

mutual

/-- The value without the members whose paths are dropped. -/
def remove (dropped : List Bytes → Bool) : Json → Json
  | obj members => obj (removeMembers dropped members)
  | null => null
  | bool b => bool b
  | num n => num n
  | str s => str s
  | arr items => arr items

/-- The members that are not dropped, with what is not dropped of their values. -/
def removeMembers (dropped : List Bytes → Bool) : List (Bytes × Json) → List (Bytes × Json)
  | [] => []
  | (name, j) :: rest =>
    if dropped [name] then removeMembers dropped rest
    else (name, j.remove fun path => dropped (name :: path)) :: removeMembers dropped rest

end

/-- The one member of this name, if there is one: a second one is refused. -/
def member (name : Bytes) (members : List (Bytes × Json)) : Option (Option Json) :=
  match members.filter fun m => m.1 = name with
  | [] => some none
  | [(_, j)] => some (some j)
  | _ => none

mutual

theorem remove_none : ∀ j : Json, j.remove (fun _ => false) = j
  | obj members => by rw [remove, removeMembers_none members]
  | null => by rw [remove]
  | bool _ => by rw [remove]
  | num _ => by rw [remove]
  | str _ => by rw [remove]
  | arr _ => by rw [remove]

theorem removeMembers_none : ∀ members : List (Bytes × Json), removeMembers (fun _ => false) members = members
  | [] => by rw [removeMembers]
  | (name, j) :: rest => by
    rw [removeMembers, if_neg Bool.false_ne_true, remove_none j, removeMembers_none rest]

end

theorem filter_removeMembers (dropped : List Bytes → Bool) (p : Bytes → Bool) : ∀ members : List (Bytes × Json),
    (removeMembers dropped members).filter (fun m => p m.1) = removeMembers dropped (members.filter fun m => p m.1)
  | [] => by
    rw [removeMembers]
    rfl
  | (name, j) :: rest => by
    rw [removeMembers]
    by_cases hp : p name = true
    · rw [List.filter_cons_of_pos (by simpa using hp), removeMembers]
      split
      · exact filter_removeMembers dropped p rest
      · rw [List.filter_cons_of_pos (by simpa using hp), filter_removeMembers dropped p rest]
    · rw [List.filter_cons_of_neg (by simpa using hp)]
      split
      · exact filter_removeMembers dropped p rest
      · rw [List.filter_cons_of_neg (by simpa using hp), filter_removeMembers dropped p rest]

/-- Of names that are distinct, one comes once. -/
theorem filter_name_eq {members : List (Bytes × Json)} (hnodup : (members.map Prod.fst).Nodup) {name : Bytes} {j : Json}
    (hmem : (name, j) ∈ members) : (members.filter fun m => m.1 = name) = [(name, j)] := by
  induction members with
  | nil => cases hmem
  | cons m rest ih =>
    rw [List.map_cons, List.nodup_cons] at hnodup
    have hrest : ∀ {n : Bytes}, n ∉ rest.map Prod.fst → (rest.filter fun m => m.1 = n) = [] := by
      intro n hn
      rw [List.filter_eq_nil_iff]
      intro m' hm' heq
      exact hn (List.mem_map.mpr ⟨m', hm', by simpa using heq⟩)
    rcases List.mem_cons.mp hmem with rfl | hmem
    · rw [List.filter_cons_of_pos (by simp), hrest hnodup.1]
    · have hne : m.1 ≠ name := by
        intro heq
        exact hnodup.1 (List.mem_map.mpr ⟨(name, j), hmem, heq.symm⟩)
      rw [List.filter_cons_of_neg (by simpa using hne)]
      exact ih hnodup.2 hmem

/-- What a member is when some have been removed. -/
theorem member_removeMembers {dropped : List Bytes → Bool} {members : List (Bytes × Json)}
    (hnodup : (members.map Prod.fst).Nodup) {name : Bytes} {j : Json} (hmem : (name, j) ∈ members) :
    member name (removeMembers dropped members) =
      some (if dropped [name] then none else some (j.remove fun path => dropped (name :: path))) := by
  have hfilter := filter_removeMembers dropped (fun n => n = name) members
  rw [filter_name_eq hnodup hmem] at hfilter
  rw [member, hfilter, removeMembers, removeMembers]
  by_cases hdropped : dropped [name] = true
  · rw [if_pos hdropped, if_pos hdropped]
  · rw [if_neg hdropped, if_neg hdropped]

end Json

/-- `rename_all = "snake_case"`, for the name of a variant. -/
def snakeCase : Bytes → Bytes
  | [] => []
  | c :: rest =>
    let lower (c : UInt8) : UInt8 := if 65 ≤ c ∧ c ≤ 90 then c + 32 else c
    lower c :: rest.flatMap fun c => if 65 ≤ c ∧ c ≤ 90 then [95, lower c] else [c]

/-! ### A type and its values -/

/-- What is derived for a type. `Typed` says which of the values are of the Rust
type; `Marked` are the paths of the fields of a value that are marked with a
default, and `reset` puts those that are dropped at it. -/
structure Serde (α : Type) where
  write : α → Json
  read : Json → Option α
  Typed : α → Prop
  Marked : α → List Bytes → Prop
  reset : (List Bytes → Bool) → α → α
  read_remove : ∀ a, Typed a → ∀ dropped : List Bytes → Bool, (∀ path, dropped path = true → Marked a path) →
    read ((write a).remove dropped) = some (reset dropped a)
  reset_none : ∀ a, reset (fun _ => false) a = a

namespace Serde

variable {α : Type}

/-- **What is written is read back.** -/
theorem read_write (serde : Serde α) {a : α} (ha : serde.Typed a) : serde.read (serde.write a) = some a := by
  have h := serde.read_remove a ha (fun _ => false) fun _ h => absurd h Bool.false_ne_true
  rwa [Json.remove_none, serde.reset_none] at h

/-- A type without fields. -/
def leaf (write : α → Json) (read : Json → Option α) (Typed : α → Prop)
    (hwhole : ∀ a dropped, (write a).remove dropped = write a) (hread : ∀ a, Typed a → read (write a) = some a) :
    Serde α where
  write := write
  read := read
  Typed := Typed
  Marked _ _ := False
  reset _ a := a
  read_remove a ha dropped _ := by rw [hwhole, hread a ha]
  reset_none _ := rfl

/-- Text. -/
def string : Serde Bytes :=
  leaf .str
    (fun
      | .str s => some s
      | _ => none)
    (fun _ => True) (fun s dropped => by rw [Json.remove]) fun _ _ => rfl

/-- Truth values. -/
def boolean : Serde Bool :=
  leaf .bool
    (fun
      | .bool b => some b
      | _ => none)
    (fun _ => True) (fun b dropped => by rw [Json.remove]) fun _ _ => rfl

/-- A number from zero on, of so many bits. -/
def readUnsigned (bits : ℕ) : Json → Option ℕ
  | .num n => if 0 ≤ n ∧ n < 2 ^ bits then some n.toNat else none
  | _ => none

/-- Numbers from zero on, of so many bits. -/
def unsigned (bits : ℕ) : Serde ℕ :=
  leaf (fun n => .num n) (readUnsigned bits) (· < 2 ^ bits) (fun n dropped => by rw [Json.remove]) fun n hn => by
    have hrange : (0 : ℤ) ≤ n ∧ (n : ℤ) < 2 ^ bits := ⟨Int.natCast_nonneg n, by exact_mod_cast hn⟩
    rw [readUnsigned, if_pos hrange, Int.toNat_natCast]

/-- The range of a signed integer with one bit more. -/
def InSigned (bits : ℕ) (n : ℤ) : Prop := -2 ^ bits ≤ n ∧ n < 2 ^ bits

instance (bits : ℕ) : DecidablePred (InSigned bits) := fun _ => inferInstanceAs (Decidable (_ ∧ _))

/-- A number with a sign, of so many bits. -/
def readSigned (bits : ℕ) : Json → Option ℤ
  | .num n => if InSigned bits n then some n else none
  | _ => none

/-- Numbers with a sign, of so many bits. -/
def signed (bits : ℕ) : Serde ℤ :=
  leaf .num (readSigned bits) (InSigned bits) (fun n dropped => by rw [Json.remove]) fun n hn => by
    rw [readSigned, if_pos hn]

/-- The value of this name. -/
def named {T : Type} (all : List T) (name : T → Bytes) (s : Bytes) : Option T := all.find? fun t => name t = s

theorem named_name {T : Type} {all : List T} {name : T → Bytes} (hdistinct : (all.map name).Nodup) {t : T}
    (ht : t ∈ all) : named all name (name t) = some t := by
  cases hfind : named all name (name t) with
  | none =>
    rw [named, List.find?_eq_none] at hfind
    exact absurd (decide_eq_true rfl) (hfind t ht)
  | some u =>
    have hname : name u = name t := by simpa using List.find?_some hfind
    rw [List.inj_on_of_nodup_map hdistinct (List.mem_of_find?_eq_some hfind) ht hname]

/-- An enumeration without data. -/
def enumeration (all : List α) (name : α → Bytes) (hcomplete : ∀ a, a ∈ all) (hdistinct : (all.map name).Nodup) :
    Serde α :=
  leaf (fun a => .str (name a))
    (fun
      | .str s => named all name s
      | _ => none)
    (fun _ => True) (fun a dropped => by rw [Json.remove]) fun a _ => named_name hdistinct (hcomplete a)

/-- An option, of a type that is not written as `null`. -/
def option (serde : Serde α) (hnull : ∀ a dropped, (serde.write a).remove dropped ≠ .null) : Serde (Option α) where
  write
    | none => .null
    | some a => serde.write a
  read
    | .null => some none
    | j => (serde.read j).map some
  Typed o := ∀ a ∈ o, serde.Typed a
  Marked o path := ∃ a ∈ o, serde.Marked a path
  reset dropped o := o.map (serde.reset dropped)
  read_remove o ho dropped hdropped := by
    cases o with
    | none => simp only [Json.remove, Option.map_none]
    | some a =>
      have hread := serde.read_remove a (ho a rfl) dropped fun path hpath => by
        obtain ⟨b, hb, hmarked⟩ := hdropped path hpath
        rwa [Option.some.inj hb]
      have hne := hnull a dropped
      dsimp only
      split
      · exact absurd ‹_› hne
      · rw [hread]
        rfl
  reset_none o := by
    cases o with
    | none => rfl
    | some a => rw [Option.map_some, serde.reset_none]

theorem mapM_write (serde : Serde α) : ∀ {as : List α}, (∀ a ∈ as, serde.Typed a) →
    (as.map serde.write).mapM serde.read = some as
  | [], _ => rfl
  | a :: as, h => by
    rw [List.forall_mem_cons] at h
    rw [List.map_cons, List.mapM_cons, serde.read_write h.1, mapM_write serde h.2]
    rfl

/-- A list; nothing is dropped inside it. -/
def list (serde : Serde α) : Serde (List α) :=
  leaf (fun as => .arr (as.map serde.write))
    (fun
      | .arr items => items.mapM serde.read
      | _ => none)
    (fun as => ∀ a ∈ as, serde.Typed a) (fun as dropped => by rw [Json.remove]) fun _ h => mapM_write serde h

end Serde

/-! ### Records -/

/-- A field: what it is without a member, and whether it is marked with a default. -/
structure Field (α : Type) where
  name : Bytes
  serde : Serde α
  missing : Option α
  marked : Bool
  hmarked : marked = true → missing.isSome = true

namespace Field

variable {α : Type}

/-- A field that may not be missing. -/
def required (name : Bytes) (serde : Serde α) : Field α := ⟨name, serde, none, false, fun h => absurd h Bool.false_ne_true⟩

/-- An option without a mark: it is none where there is no member. -/
def optional (name : Bytes) (serde : Serde (Option α)) : Field (Option α) :=
  ⟨name, serde, some none, false, fun h => absurd h Bool.false_ne_true⟩

/-- A field that is marked with a default. -/
def default (name : Bytes) (serde : Serde α) (value : α) : Field α := ⟨name, serde, some value, true, fun _ => rfl⟩

@[simp] theorem required_name (name : Bytes) (serde : Serde α) : (required name serde).name = name := rfl
@[simp] theorem required_serde (name : Bytes) (serde : Serde α) : (required name serde).serde = serde := rfl
@[simp] theorem optional_name (name : Bytes) (serde : Serde (Option α)) : (optional name serde).name = name := rfl
@[simp] theorem optional_serde (name : Bytes) (serde : Serde (Option α)) : (optional name serde).serde = serde := rfl
@[simp] theorem default_name (name : Bytes) (serde : Serde α) (value : α) : (default name serde value).name = name := rfl
@[simp] theorem default_serde (name : Bytes) (serde : Serde α) (value : α) : (default name serde value).serde = serde := rfl

/-- The value of the field, or what it is where it is missing. -/
def read (f : Field α) (members : List (Bytes × Json)) : Option α :=
  match Json.member f.name members with
  | none => none
  | some none => f.missing
  | some (some j) => f.serde.read j

/-- What may be dropped of the field: the whole of it, or something inside. -/
def Marked (f : Field α) (a : α) (path : List Bytes) : Prop :=
  (f.marked = true ∧ path = [f.name]) ∨ ∃ sub, sub ≠ [] ∧ path = f.name :: sub ∧ f.serde.Marked a sub

/-- The value of the field when something has been dropped. -/
def reset (f : Field α) (dropped : List Bytes → Bool) (a : α) : α :=
  match f.missing, dropped [f.name] with
  | some value, true => value
  | _, _ => f.serde.reset (fun path => dropped (f.name :: path)) a

theorem Marked.name {f : Field α} {a : α} {name : Bytes} {sub : List Bytes} (h : f.Marked a (name :: sub)) :
    name = f.name := by
  rcases h with ⟨-, h⟩ | ⟨_, -, h, -⟩
  · exact (List.cons.inj h).1
  · exact (List.cons.inj h).1

theorem read_eq {f : Field α} {a : α} (ha : f.serde.Typed a) {dropped : List Bytes → Bool}
    (hdropped : ∀ sub, dropped (f.name :: sub) = true → f.Marked a (f.name :: sub)) {members : List (Bytes × Json)}
    (hmember : Json.member f.name members = some
      (if dropped [f.name] then none else some ((f.serde.write a).remove fun path => dropped (f.name :: path)))) :
    f.read members = some (f.reset dropped a) := by
  rw [read, hmember, reset]
  cases h : dropped [f.name] with
  | true =>
    have hmarked : f.marked = true := by
      rcases hdropped [] h with ⟨hmarked, -⟩ | ⟨sub, hsub, hpath, -⟩
      · exact hmarked
      · exact absurd (List.cons.inj hpath).2.symm hsub
    obtain ⟨value, hvalue⟩ := Option.isSome_iff_exists.mp (f.hmarked hmarked)
    rw [hvalue]
    rfl
  | false =>
    have hinner : f.serde.read ((f.serde.write a).remove fun path => dropped (f.name :: path)) =
        some (f.serde.reset (fun path => dropped (f.name :: path)) a) := by
      apply f.serde.read_remove a ha
      intro path hpath
      rcases hdropped path hpath with ⟨-, hname⟩ | ⟨sub, -, hsub, hmarked⟩
      · obtain rfl := (List.cons.inj hname).2
        rw [h] at hpath
        cases hpath
      · rwa [(List.cons.inj hsub).2]
    rw [if_neg Bool.false_ne_true]
    dsimp only
    rw [hinner]
    cases f.missing with
    | none => rfl
    | some value => rfl

theorem reset_none (f : Field α) (a : α) : f.reset (fun _ => false) a = a := by
  unfold reset
  cases f.missing with
  | none => exact f.serde.reset_none a
  | some value => exact f.serde.reset_none a

end Field

/-- The fields of a record, whose values are a tuple. -/
inductive Schema : Type → Type 1 where
  | nil : Schema Unit
  | cons {α β : Type} (f : Field α) (rest : Schema β) : Schema (α × β)

namespace Schema

/-- The names of the fields. -/
def names : {β : Type} → Schema β → List Bytes
  | _, nil => []
  | _, cons f rest => f.name :: rest.names

/-- The fields as the members of an object. -/
def members : {β : Type} → Schema β → β → List (Bytes × Json)
  | _, nil, _ => []
  | _, cons f rest, (a, b) => (f.name, f.serde.write a) :: rest.members b

/-- Each field is looked for among the members. -/
def read : {β : Type} → Schema β → List (Bytes × Json) → Option β
  | _, nil, _ => some ()
  | _, cons f rest, members =>
    match f.read members, rest.read members with
    | some a, some b => some (a, b)
    | _, _ => none

/-- Each field has a value of its type. -/
def Typed : {β : Type} → Schema β → β → Prop
  | _, nil, _ => True
  | _, cons f rest, (a, b) => f.serde.Typed a ∧ rest.Typed b

/-- What may be dropped of the record is something of a field. -/
def Marked : {β : Type} → Schema β → β → List Bytes → Prop
  | _, nil, _, _ => False
  | _, cons f rest, (a, b), path => f.Marked a path ∨ rest.Marked b path

/-- The record when something has been dropped. -/
def reset : {β : Type} → Schema β → (List Bytes → Bool) → β → β
  | _, nil, _, b => b
  | _, cons f rest, dropped, (a, b) => (f.reset dropped a, rest.reset dropped b)

theorem reset_none : ∀ {β : Type} (schema : Schema β) (b : β), schema.reset (fun _ => false) b = b
  | _, nil, _ => rfl
  | _, cons f rest, (a, b) => by rw [reset, f.reset_none, rest.reset_none]

theorem members_names : ∀ {β : Type} (schema : Schema β) (b : β), (schema.members b).map Prod.fst = schema.names
  | _, nil, _ => rfl
  | _, cons f rest, (a, b) => by rw [members, names, List.map_cons, members_names rest b]

theorem Marked.name : ∀ {β : Type} {schema : Schema β} {b : β} {name : Bytes} {sub : List Bytes},
    schema.Marked b (name :: sub) → name ∈ schema.names
  | _, cons f rest, (a, b), name, sub, h => by
    rcases h with h | h
    · exact h.name ▸ List.mem_cons_self ..
    · exact List.mem_cons_of_mem _ (Marked.name h)

theorem Marked.ne_nil : ∀ {β : Type} {schema : Schema β} {b : β}, ¬ schema.Marked b []
  | _, nil, _, h => h
  | _, cons f rest, (a, b), h => by
    rcases h with (⟨-, h⟩ | ⟨_, -, h, -⟩) | h
    · cases h
    · cases h
    · exact Marked.ne_nil h

/-- Each field is read from its own member. -/
theorem read_eq {dropped : List Bytes → Bool} {ms : List (Bytes × Json)} : ∀ {β : Type} {schema : Schema β} {b : β},
    schema.names.Nodup → schema.Typed b →
      (∀ name ∈ schema.names, ∀ sub, dropped (name :: sub) = true → schema.Marked b (name :: sub)) →
      (∀ name j, (name, j) ∈ schema.members b → Json.member name ms =
        some (if dropped [name] then none else some (j.remove fun path => dropped (name :: path)))) →
      schema.read ms = some (schema.reset dropped b)
  | _, nil, _, _, _, _, _ => rfl
  | _, cons f rest, (a, b), hnodup, htyped, hdropped, hmember => by
    rw [names, List.nodup_cons] at hnodup
    have hfirst : f.read ms = some (f.reset dropped a) := by
      refine Field.read_eq htyped.1 (fun sub hsub => ?_) (hmember f.name _ (List.mem_cons_self ..))
      rcases hdropped f.name (List.mem_cons_self ..) sub hsub with h | h
      · exact h
      · exact absurd h.name hnodup.1
    have hrest : rest.read ms = some (rest.reset dropped b) := by
      refine read_eq hnodup.2 htyped.2 (fun name hname sub hsub => ?_) fun name j hj =>
        hmember name j (List.mem_cons_of_mem _ hj)
      rcases hdropped name (List.mem_cons_of_mem _ hname) sub hsub with h | h
      · exact absurd (h.name ▸ hname) hnodup.1
      · exact h
    rw [read, hfirst, hrest]
    rfl

/-- **Fields are read back from their members,** those that are dropped are at
their defaults. -/
theorem read_members {β : Type} {schema : Schema β} {b : β} (hnodup : schema.names.Nodup) (htyped : schema.Typed b)
    {dropped : List Bytes → Bool} (hdropped : ∀ path, dropped path = true → schema.Marked b path) :
    schema.read (Json.removeMembers dropped (schema.members b)) = some (schema.reset dropped b) := by
  refine read_eq hnodup htyped (fun name _ sub hsub => hdropped _ hsub) fun name j hj => ?_
  exact Json.member_removeMembers (by rw [members_names]; exact hnodup) hj

end Schema

/-- A record with these fields. -/
def Serde.record {α β : Type} (schema : Schema β) (build : β → α) (parts : α → β) (hnodup : schema.names.Nodup)
    (hparts : ∀ a, build (parts a) = a) : Serde α where
  write a := .obj (schema.members (parts a))
  read
    | .obj members => (schema.read members).map build
    | _ => none
  Typed a := schema.Typed (parts a)
  Marked a := schema.Marked (parts a)
  reset dropped a := build (schema.reset dropped (parts a))
  read_remove a ha dropped hdropped := by
    rw [Json.remove]
    dsimp only
    rw [Schema.read_members hnodup ha hdropped]
    rfl
  reset_none a := by rw [Schema.reset_none, hparts]

/-! ### Tagged enumerations -/

/-- A variant with its fields. -/
structure Variant (M : Type) where
  {Fields : Type}
  schema : Schema Fields
  build : Fields → M

/-- An internally tagged enumeration: the name of the variant is the member `key`. -/
structure Tagged (M T : Type) where
  key : Bytes
  all : List T
  name : T → Bytes
  variant : T → Variant M
  view : M → (t : T) × (variant t).Fields
  complete : ∀ t, t ∈ all
  distinct : (all.map name).Nodup
  fields : ∀ t, (key :: (variant t).schema.names).Nodup
  build_view : ∀ m, (variant (view m).1).build (view m).2 = m

namespace Tagged

variable {M T : Type}

/-- The tag comes first, and then the fields of the variant. -/
def write (tagged : Tagged M T) (m : M) : Json :=
  .obj ((tagged.key, .str (tagged.name (tagged.view m).1)) ::
    (tagged.variant (tagged.view m).1).schema.members (tagged.view m).2)

/-- The tag says which fields to read. -/
def read (tagged : Tagged M T) : Json → Option M
  | .obj members =>
    match Json.member tagged.key members with
    | some (some (.str s)) =>
      match Serde.named tagged.all tagged.name s with
      | some t =>
        ((tagged.variant t).schema.read (members.filter fun m => m.1 ≠ tagged.key)).map (tagged.variant t).build
      | none => none
    | _ => none
  | _ => none

theorem read_remove (tagged : Tagged M T) (m : M)
    (hm : (tagged.variant (tagged.view m).1).schema.Typed (tagged.view m).2) (dropped : List Bytes → Bool)
    (hdropped : ∀ path, dropped path = true → (tagged.variant (tagged.view m).1).schema.Marked (tagged.view m).2 path) :
    tagged.read ((tagged.write m).remove dropped) = some ((tagged.variant (tagged.view m).1).build
      ((tagged.variant (tagged.view m).1).schema.reset dropped (tagged.view m).2)) := by
  obtain ⟨hkey, hnodup⟩ := List.nodup_cons.mp (tagged.fields (tagged.view m).1)
  have hstays : ¬ dropped [tagged.key] = true := fun h => hkey (hdropped _ h).name
  set t := (tagged.view m).1 with ht
  set members := (tagged.variant t).schema.members (tagged.view m).2 with hmembers
  have hwritten : (tagged.write m).remove dropped =
      .obj ((tagged.key, .str (tagged.name t)) :: Json.removeMembers dropped members) := by
    rw [write, Json.remove, Json.removeMembers, if_neg hstays, Json.remove]
  have hnames : (members.map Prod.fst) = (tagged.variant t).schema.names := Schema.members_names _ _
  have hothers : ∀ x ∈ Json.removeMembers dropped members, x.1 ≠ tagged.key := by
    intro x hx heq
    have hmem : x ∈ (Json.removeMembers dropped members).filter (fun m => decide (m.1 = tagged.key)) :=
      List.mem_filter.mpr ⟨hx, by simpa using heq⟩
    have hfilter := Json.filter_removeMembers dropped (fun n => decide (n = tagged.key)) members
    have hnone : (members.filter fun m => decide (m.1 = tagged.key)) = [] := by
      rw [List.filter_eq_nil_iff]
      intro y hy hkey'
      refine hkey ?_
      rw [← hnames, ← of_decide_eq_true hkey']
      exact List.mem_map_of_mem hy
    rw [hfilter, hnone, Json.removeMembers] at hmem
    cases hmem
  have htag : Json.member tagged.key ((tagged.key, .str (tagged.name t)) :: Json.removeMembers dropped members) =
      some (some (.str (tagged.name t))) := by
    rw [Json.member, List.filter_cons_of_pos (by simp), List.filter_eq_nil_iff.mpr]
    intro x hx heq
    exact hothers x hx (of_decide_eq_true heq)
  have hrest : (((tagged.key, Json.str (tagged.name t)) :: Json.removeMembers dropped members).filter
      fun m => decide (m.1 ≠ tagged.key)) = Json.removeMembers dropped members := by
    rw [List.filter_cons_of_neg (by simp), List.filter_eq_self]
    intro x hx
    exact decide_eq_true (hothers x hx)
  rw [hwritten, read]
  simp only [htag, Serde.named_name tagged.distinct (tagged.complete t), hrest]
  have hfields : (tagged.variant t).schema.read (Json.removeMembers dropped members) =
      some ((tagged.variant t).schema.reset dropped (tagged.view m).2) := Schema.read_members hnodup hm hdropped
  rw [hfields]
  rfl

/-- A tagged record is written and read. -/
def serde (tagged : Tagged M T) : Serde M where
  write := tagged.write
  read := tagged.read
  Typed m := (tagged.variant (tagged.view m).1).schema.Typed (tagged.view m).2
  Marked m := (tagged.variant (tagged.view m).1).schema.Marked (tagged.view m).2
  reset dropped m := (tagged.variant (tagged.view m).1).build
    ((tagged.variant (tagged.view m).1).schema.reset dropped (tagged.view m).2)
  read_remove := tagged.read_remove
  reset_none m := by rw [Schema.reset_none, tagged.build_view]

end Tagged

end Rsdb
