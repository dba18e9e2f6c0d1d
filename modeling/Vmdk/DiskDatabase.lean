import Vmdk.Descriptor
import Mathlib.Data.List.Nodup

/-! # The two views of the disk database

The loop of `parse` fills a field at every line with its key, so the last line
of a key decides (`DiskDatabase.parseLoop_eq`), while `get` finds the first one.
The two views agree exactly when the first and the last line of every key that
has a field say the same (`DiskDatabase.views_agree_exact`). -/

namespace DiskDatabase
open Text

/-- The value of the first entry with the full key. -/
def get (self : DiskDatabase) (key : Text) : Option Text :=
  (self.entries.find? fun e => e.1 == key).map (·.2)

/-! ## The loop -/

/-- `DiskDatabase::default()`. -/
def default : DiskDatabase := ⟨none, none, none, none, none, none, none, none, none, []⟩

/-- The variables of the loop of `parse`. -/
structure Scan where
  db : DiskDatabase
  cyl : Option Nat
  head : Option Nat
  sect : Option Nat
  bcyl : Option Nat
  bhead : Option Nat
  bsect : Option Nat

namespace Scan

def start : Scan := ⟨default, none, none, none, none, none, none⟩

def push (self : Scan) (key value : Text) : Scan :=
  { self with
    db := { self.db with entries := self.db.entries ++ [("ddb.".toList ++ key, value)] } }

/-- The variable that `key` names takes the value. -/
def assign (self : Scan) (key value : Text) : Scan :=
  match String.ofList key with
  | "adapterType" => { self with db := { self.db with adapterType := some value } }
  | "virtualHWVersion" => { self with db := { self.db with virtualHwVersion := some value } }
  | "toolsVersion" => { self with db := { self.db with toolsVersion := some value } }
  | "uuid" => { self with db := { self.db with uuid := some value } }
  | "longContentID" => { self with db := { self.db with longContentId := some value } }
  | "encoding" => { self with db := { self.db with encoding := some value } }
  | "thinProvisioned" =>
    { self with db := { self.db with thinProvisioned := some (trim value == ['1']) } }
  | "geometry.cylinders" => { self with cyl := parseU32 value }
  | "geometry.heads" => { self with head := parseU32 value }
  | "geometry.sectors" => { self with sect := parseU32 value }
  | "geometry.biosCylinders" => { self with bcyl := parseU32 value }
  | "geometry.biosHeads" => { self with bhead := parseU32 value }
  | "geometry.biosSectors" => { self with bsect := parseU32 value }
  | _ => self

/-- One round of the loop. -/
def line (self : Scan) (line : Text) : Scan :=
  match entryOf line with
  | none => self
  | some (key, value) => (self.push key value).assign key value

/-- The geometries, where all their numbers are known. -/
def finish (self : Scan) : DiskDatabase :=
  { self.db with
    geometry := geometryOf self.cyl self.head self.sect
    biosGeometry := geometryOf self.bcyl self.bhead self.bsect }

end Scan

/-- `parse` as the source's loop computes it. -/
def parseLoop (descriptorText : Text) : DiskDatabase :=
  ((lines descriptorText).foldl Scan.line Scan.start).finish

/-! ## First and last values -/

/-- The keys and values of a text, in order. -/
def pairs (descriptorText : Text) : List (Text × Text) := (lines descriptorText).filterMap entryOf

/-- The value of the first pair with the key. -/
def first (found : List (Text × Text)) (key : String) : Option Text :=
  (found.find? fun e => e.1 == key.toList).map (·.2)

/-- The value of the last pair with the key. -/
def last (found : List (Text × Text)) (key : String) : Option Text := first found.reverse key

/-- The number that a value stands for. -/
def number (value : Option Text) : Option Nat := value.bind parseU32

/-- A geometry by the values of its keys. -/
def geometryBy (value : String → Option Text) (cylinders heads sectors : String) :
    Option DiskGeometry :=
  geometryOf (number (value cylinders)) (number (value heads)) (number (value sectors))

/-- Whether a value stands for a thin disk. -/
def thinBy (value : Option Text) : Option Bool := value.map fun v => trim v == ['1']

theorem last_concat (found : List (Text × Text)) (key : Text) (value : Text) (k : String) :
    last (found ++ [(key, value)]) k = if String.ofList key = k then some value else last found k := by
  unfold last first
  rw [List.reverse_append, List.reverse_singleton, List.singleton_append, List.find?_cons]
  have hkey : (key == k.toList) = decide (String.ofList key = k) := by
    rw [Bool.eq_iff_iff, beq_iff_eq, decide_eq_true_iff]
    constructor
    · rintro rfl
      exact String.ofList_toList
    · rintro rfl
      exact String.toList_ofList.symm
  simp only [hkey]
  by_cases h : String.ofList key = k
  · simp only [h, decide_true, if_true, Option.map_some]
  · simp only [h, decide_false, if_false]

/-- The variables of the loop after the pairs `found`. -/
def Scan.of (found : List (Text × Text)) : Scan where
  db :=
    { default with
      adapterType := last found "adapterType"
      virtualHwVersion := last found "virtualHWVersion"
      toolsVersion := last found "toolsVersion"
      uuid := last found "uuid"
      longContentId := last found "longContentID"
      thinProvisioned := thinBy (last found "thinProvisioned")
      encoding := last found "encoding"
      entries := found.map fun e => ("ddb.".toList ++ e.1, e.2) }
  cyl := number (last found "geometry.cylinders")
  head := number (last found "geometry.heads")
  sect := number (last found "geometry.sectors")
  bcyl := number (last found "geometry.biosCylinders")
  bhead := number (last found "geometry.biosHeads")
  bsect := number (last found "geometry.biosSectors")

/-- **One line with a key**: each variable holds the value of the last line with its key. -/
theorem Scan.assign_of (found : List (Text × Text)) (key value : Text) :
    ((Scan.of found).push key value).assign key value = Scan.of (found ++ [(key, value)]) := by
  unfold Scan.of
  simp only [last_concat, List.map_append, List.map_cons, List.map_nil]
  unfold Scan.assign Scan.push
  split <;> simp_all [thinBy, number]

theorem Scan.foldl_of (ls : List Text) (found : List (Text × Text)) :
    ls.foldl Scan.line (Scan.of found) = Scan.of (found ++ ls.filterMap entryOf) := by
  induction ls generalizing found with
  | nil => rw [List.foldl_nil, List.filterMap_nil, List.append_nil]
  | cons l ls ih =>
    rw [List.foldl_cons, Scan.line]
    cases hentry : entryOf l with
    | none =>
      rw [List.filterMap_cons_none hentry]
      exact ih found
    | some e =>
      obtain ⟨key, value⟩ := e
      rw [List.filterMap_cons_some hentry, List.append_cons found]
      show ls.foldl Scan.line (((Scan.of found).push key value).assign key value) = _
      rw [Scan.assign_of]
      exact ih _

/-- **The loop of the source** leaves in every field what the last line with its key says. -/
theorem parseLoop_eq (descriptorText : Text) : parseLoop descriptorText = parse descriptorText := by
  have hstart : Scan.start = Scan.of [] := rfl
  unfold parseLoop
  rw [hstart, Scan.foldl_of, List.nil_append]
  rfl

/-- `get` finds the value of the first line with the key. -/
theorem get_parse (descriptorText : Text) (key : String) :
    (parse descriptorText).get ("ddb.".toList ++ key.toList) = first (pairs descriptorText) key := by
  have hkey (e : Text × Text) :
      (("ddb.".toList ++ e.1 == "ddb.".toList ++ key.toList) : Bool) = (e.1 == key.toList) := by
    rw [Bool.eq_iff_iff, beq_iff_eq, beq_iff_eq, List.append_cancel_left_eq]
  unfold get first
  show (((pairs descriptorText).map fun e => ("ddb.".toList ++ e.1, e.2)).find?
    fun e => e.1 == "ddb.".toList ++ key.toList).map (·.2) = _
  rw [List.find?_map, Option.map_map]
  simp only [Function.comp_def, hkey]

/-! ## The two views -/

/-- The fields that hold the value of their key as it is. -/
def textFields (db : DiskDatabase) : List (String × Option Text) :=
  [("adapterType", db.adapterType), ("virtualHWVersion", db.virtualHwVersion),
    ("toolsVersion", db.toolsVersion), ("uuid", db.uuid), ("longContentID", db.longContentId),
    ("encoding", db.encoding)]

/-- Each field is what `get` returns for its key, as the field reads it. -/
structure ViewsAgree (db : DiskDatabase) : Prop where
  text : ∀ field ∈ db.textFields, field.2 = db.get ("ddb.".toList ++ field.1.toList)
  thin : db.thinProvisioned = thinBy (db.get ("ddb.".toList ++ "thinProvisioned".toList))
  geometry : db.geometry = geometryBy (fun key => db.get ("ddb.".toList ++ key.toList))
    "geometry.cylinders" "geometry.heads" "geometry.sectors"
  biosGeometry : db.biosGeometry = geometryBy (fun key => db.get ("ddb.".toList ++ key.toList))
    "geometry.biosCylinders" "geometry.biosHeads" "geometry.biosSectors"

/-- The keys whose value is a field. -/
def textKeys : List String :=
  ["adapterType", "virtualHWVersion", "toolsVersion", "uuid", "longContentID", "encoding"]

/-- The first and the last lines of the keys with a field say the same: the same text, both thin or
both not, and the same geometry or both none. -/
structure RepeatsAgree (found : List (Text × Text)) : Prop where
  text : ∀ key ∈ textKeys, last found key = first found key
  thin : thinBy (last found "thinProvisioned") = thinBy (first found "thinProvisioned")
  geometry : geometryBy (last found) "geometry.cylinders" "geometry.heads" "geometry.sectors" =
    geometryBy (first found) "geometry.cylinders" "geometry.heads" "geometry.sectors"
  biosGeometry :
    geometryBy (last found) "geometry.biosCylinders" "geometry.biosHeads" "geometry.biosSectors" =
      geometryBy (first found) "geometry.biosCylinders" "geometry.biosHeads" "geometry.biosSectors"

theorem textFields_parse (descriptorText : Text) : (parse descriptorText).textFields =
    textKeys.map fun key => (key, last (pairs descriptorText) key) := rfl

/-- **The typed fields agree with `get`** exactly when the repeated lines of the text agree. -/
theorem views_agree_exact (descriptorText : Text) :
    ViewsAgree (parse descriptorText) ↔ RepeatsAgree (pairs descriptorText) := by
  have htext : (∀ field ∈ (parse descriptorText).textFields,
      field.2 = (parse descriptorText).get ("ddb.".toList ++ field.1.toList)) ↔
        ∀ key ∈ textKeys, last (pairs descriptorText) key = first (pairs descriptorText) key := by
    rw [textFields_parse, List.forall_mem_map]
    simp only [get_parse]
  have hthin : (parse descriptorText).thinProvisioned =
      thinBy (last (pairs descriptorText) "thinProvisioned") := rfl
  have hgeometry : (parse descriptorText).geometry = geometryBy (last (pairs descriptorText))
      "geometry.cylinders" "geometry.heads" "geometry.sectors" := rfl
  have hbios : (parse descriptorText).biosGeometry = geometryBy (last (pairs descriptorText))
      "geometry.biosCylinders" "geometry.biosHeads" "geometry.biosSectors" := rfl
  constructor
  · intro h
    refine ⟨htext.mp h.text, ?_, ?_, ?_⟩
    · rw [← hthin, h.thin, get_parse]
    · rw [← hgeometry, h.geometry]
      simp only [get_parse]
    · rw [← hbios, h.biosGeometry]
      simp only [get_parse]
  · intro h
    refine ⟨htext.mpr h.text, ?_, ?_, ?_⟩
    · rw [hthin, h.thin, get_parse]
    · rw [hgeometry, h.geometry]
      simp only [get_parse]
    · rw [hbios, h.biosGeometry]
      simp only [get_parse]

/-- A key that is not repeated has one value. -/
theorem last_eq_first {found : List (Text × Text)} (h : (found.map (·.1)).Nodup) (key : String) :
    last found key = first found key := by
  induction found with
  | nil => rfl
  | cons e found ih =>
    obtain ⟨hnew, hrest⟩ := List.nodup_cons.mp h
    have hsame : (found.reverse.find? fun e => e.1 == key.toList).map (·.2) =
        (found.find? fun e => e.1 == key.toList).map (·.2) := ih hrest
    unfold last first
    rw [List.reverse_cons, List.find?_append, List.find?_singleton, List.find?_cons]
    cases hkey : e.1 == key.toList with
    | true =>
      have hnone : found.reverse.find? (fun e => e.1 == key.toList) = none := by
        refine List.find?_eq_none.mpr fun x hx hxkey => hnew ?_
        show e.1 ∈ _
        rw [beq_iff_eq.mp hkey, ← beq_iff_eq.mp hxkey]
        exact List.mem_map_of_mem (List.mem_reverse.mp hx)
      rw [hnone]
      rfl
    | false =>
      show ((found.reverse.find? fun e => e.1 == key.toList).or none).map (·.2) = _
      rw [Option.or_none, hsame]

/-- A text that repeats no key shows one view. -/
theorem views_agree_of_nodup {descriptorText : Text}
    (h : ((pairs descriptorText).map (·.1)).Nodup) : ViewsAgree (parse descriptorText) := by
  refine (views_agree_exact descriptorText).mpr ?_
  constructor <;> simp only [geometryBy, last_eq_first h, implies_true]

/-- Two lines with a UUID. -/
def twoIdsText : Text := "ddb.uuid = \"60 00\"\nddb.uuid = \"60 01\"".toList

/-- **The field shows the second identity**, and `get` the first. -/
theorem views_differ_twoIdsText :
    (parse twoIdsText).uuid = some "60 01".toList ∧
      (parse twoIdsText).get "ddb.uuid".toList = some "60 00".toList ∧
      ¬ ViewsAgree (parse twoIdsText) := by
  have huuid : (parse twoIdsText).uuid = some "60 01".toList := by decide +kernel
  have hget : (parse twoIdsText).get "ddb.uuid".toList = some "60 00".toList := by decide +kernel
  refine ⟨huuid, hget, fun h => ?_⟩
  have hsame : (parse twoIdsText).uuid = (parse twoIdsText).get "ddb.uuid".toList :=
    h.text ("uuid", (parse twoIdsText).uuid) (by simp [textFields])
  rw [huuid, hget] at hsame
  exact absurd hsame (by decide)

end DiskDatabase
