import MessageRouting.Proofs.Json.PrintedValues
import MessageRouting.Proofs.Text.CharacterBytes

/-!
# Entries on their lines

The line of an entry spells this entry, with its newline or without, and no
shorter piece of it spells anything. So a line that has been cut off is told
from a whole one. The numbers of an entry have to fit the widths in which they
are kept: 64 bits for sequences, 32 bits with a sign for the format number of a
branch.

Results:

* `ofJson?_toJson`: an entry has one JSON form, which gives it back.
* `ofBytes?_text`, `ofBytes?_line`: the line of an entry spells it.
* `ofBytes?_take`: no proper beginning of an entry's text spells an entry.
-/

namespace MessageRouting

open Json (Value)

/-! ## Widths -/

/-- The format number fits 32 bits with a sign. -/
def Xid.Fits (x : Xid) : Prop := Json.minInt32 ≤ x.formatId ∧ x.formatId ≤ Json.maxInt32

/-- The sequence fits 64 bits. -/
def Record.Fits (r : Record) : Prop := r.sequence ≤ Json.maxUInt64

/-- The numbers of the entry fit the widths in which they are kept. -/
def Entry.Fits : Entry → Prop
  | .add r => r.Fits
  | .prune _ n => n ≤ Json.maxUInt64
  | .prepare x r => x.Fits ∧ r.Fits
  | .resolve x => x.Fits

instance (x : Xid) : Decidable x.Fits := by
  unfold Xid.Fits
  infer_instance

instance (r : Record) : Decidable r.Fits := by
  unfold Record.Fits
  infer_instance

instance (e : Entry) : Decidable e.Fits := by
  cases e <;> unfold Entry.Fits <;> infer_instance

/-! ## Members -/

namespace Json

theorem mapM_eq_some {α β : Type} {f : α → Option β} {g : α → β} {xs : List α}
    (h : ∀ x ∈ xs, f x = some (g x)) : xs.mapM f = some (xs.map g) := by
  induction xs with
  | nil => rfl
  | cons x xs ih =>
    rw [List.mapM_cons, h x List.mem_cons_self, ih fun y hy => h y (List.mem_cons_of_mem x hy)]
    rfl

theorem fieldsNamed_cons (name : String) (f : Text × Value) (fields : List (Text × Value)) :
    fieldsNamed name (f :: fields) =
      if f.1 = some name then f.2 :: fieldsNamed name fields else fieldsNamed name fields := by
  unfold fieldsNamed
  by_cases h : f.1 = some name <;> simp [h]

theorem fieldsNamed_eq_nil {name : String} {fields : List (String × Value)}
    (h : name ∉ fields.map (·.1)) :
    fieldsNamed name (fields.map fun f => (some f.1, f.2)) = [] := by
  induction fields with
  | nil => rfl
  | cons f fields ih =>
    rw [List.map_cons, List.mem_cons, not_or] at h
    rw [List.map_cons, fieldsNamed_cons, if_neg fun heq => h.1 (Option.some.inj heq).symm, ih h.2]

/-- A field whose name no other one has is found by its name. -/
theorem fieldsNamed_of_mem {fields : List (String × Value)} (h : (fields.map (·.1)).Nodup)
    {f : String × Value} (hf : f ∈ fields) :
    fieldsNamed f.1 (fields.map fun g => (some g.1, g.2)) = [f.2] := by
  induction fields with
  | nil => cases hf
  | cons g fields ih =>
    obtain ⟨hg, hfields⟩ := List.nodup_cons.1 h
    rw [List.map_cons, fieldsNamed_cons]
    rcases List.mem_cons.1 hf with rfl | hf
    · rw [if_pos rfl, fieldsNamed_eq_nil hg]
    · have hne : ¬ some g.1 = some f.1 := fun heq =>
        hg (List.mem_map.2 ⟨f, hf, (Option.some.inj heq).symm⟩)
      rw [if_neg hne, ih hfields hf]

/-- A record is read from its members by their names. -/
theorem members?_ofFields {fields : List (String × Value)} (h : (fields.map (·.1)).Nodup) :
    (Value.ofFields fields).members? (fields.map (·.1)) = some (fields.map (·.2)) := by
  have hsome : (fields.map fun f => (some f.1, f.2)).all (fun f : Text × Value => f.1.isSome) =
      true := by simp
  have hfound : ∀ f ∈ fields,
      onlyField? f.1 (fields.map fun g => (some g.1, g.2)) = some f.2 := fun f hf => by
    rw [onlyField?, fieldsNamed_of_mem h hf]
  rw [Value.ofFields, Value.members?, if_pos hsome, List.mapM_map]
  exact mapM_eq_some hfound

theorem nat?_ofNat {n high : Nat} (h : n ≤ high) : (Value.ofNat n).nat? high = some n := by
  have hint : (Value.ofNat n).int? 0 high = some n := by
    simp [Value.int?, Value.ofNat, h]
  rw [Value.nat?, hint]
  rfl

theorem int?_ofInt {n low high : Int} (hlow : low ≤ n) (hhigh : n ≤ high) :
    (Value.ofInt n).int? low high = some n := by
  have hzero : (decide (n < 0) && decide (n.natAbs = 0)) = false := by
    rw [← Bool.not_eq_true, Bool.and_eq_true, decide_eq_true_eq, decide_eq_true_eq]
    omega
  have habs : (if decide (n < 0) = true then -(n.natAbs : Int) else n.natAbs) = n := by
    split
    · rename_i hneg
      have hneg' := of_decide_eq_true hneg
      omega
    · rename_i hneg
      have hneg' := of_decide_eq_false (Bool.eq_false_iff.2 hneg)
      omega
  simp only [Value.int?, Value.ofInt, hzero, Bool.not_false, Bool.and_true, if_true, habs]
  exact if_pos ⟨hlow, hhigh⟩

theorem bytes?_ofBytes (bytes : List UInt8) : (Value.ofBytes bytes).bytes? = some bytes := by
  have hbyte : ∀ b ∈ bytes, ((Value.ofNat b.toNat).nat? 255).map UInt8.ofNat = some b :=
    fun b _ => by
      rw [nat?_ofNat (Nat.le_of_lt_succ b.toNat_lt), Option.map_some, UInt8.ofNat_toNat]
  rw [Value.ofBytes, Value.bytes?, List.mapM_map]
  exact (mapM_eq_some hbyte).trans (by rw [List.map_id'])

end Json

/-! ## JSON forms -/

theorem Address.ofJson?_toJson (a : Address) : Address.ofJson? a.toJson = some a := rfl

theorem Xid.ofJson?_toJson {x : Xid} (h : x.Fits) : Xid.ofJson? x.toJson = some x := by
  have hmembers : x.toJson.members? ["format_id", "global_transaction_id", "branch_qualifier"] =
      some [.ofInt x.formatId, .ofBytes x.globalId, .ofBytes x.qualifier] :=
    Json.members?_ofFields (by simp)
  unfold Xid.ofJson?
  rw [hmembers]
  simp only [Option.bind_eq_bind, Option.bind_some, Value.int32?, Json.int?_ofInt h.1 h.2,
    Json.bytes?_ofBytes]

theorem Record.ofJson?_toJson {r : Record} (h : r.Fits) : Record.ofJson? r.toJson = some r := by
  have hmembers : r.toJson.members? ["address", "sequence", "duplicate_id"] =
      some [r.address.toJson, .ofNat r.sequence, .ofBytes r.duplicateId] :=
    Json.members?_ofFields (by simp)
  unfold Record.ofJson?
  rw [hmembers]
  simp only [Option.bind_eq_bind, Option.bind_some, Address.ofJson?_toJson, Json.nat?_ofNat h,
    Json.bytes?_ofBytes]

/-- The kind of an entry, as its JSON form tells it. -/
def Entry.kind : Entry → String
  | .add _ => "add"
  | .prune _ _ => "prune"
  | .prepare _ _ => "prepare"
  | .resolve _ => "resolve"

/-- The members of an entry of its kind. -/
def Entry.members : Entry → List (String × Value)
  | .add r => [("record", r.toJson)]
  | .prune a s => [("address", a.toJson), ("sequence", .ofNat s)]
  | .prepare x r => [("xid", x.toJson), ("record", r.toJson)]
  | .resolve x => [("xid", x.toJson)]

theorem Entry.toJson_eq (e : Entry) :
    e.toJson = .ofFields (("op", .ofString e.kind) :: e.members) := by cases e <;> rfl

theorem Entry.ofMembers?_members {e : Entry} (h : e.Fits) :
    Entry.ofMembers? e.kind (.ofFields e.members) = some e := by
  have hnames : (e.members.map (·.1)).Nodup := by cases e <;> simp [members]
  have hmembers := Json.members?_ofFields hnames
  cases e with
  | add r =>
    have hadd : (Value.ofFields (Entry.add r).members).members? ["record"] = some [r.toJson] :=
      hmembers
    simp [Entry.ofMembers?, kind, hadd, Record.ofJson?_toJson h]
  | prune a s =>
    have hprune : (Value.ofFields (Entry.prune a s).members).members? ["address", "sequence"] =
      some [a.toJson, .ofNat s] := hmembers
    simp [Entry.ofMembers?, kind, hprune, Address.ofJson?_toJson, Json.nat?_ofNat h]
  | prepare x r =>
    have hprepare : (Value.ofFields (Entry.prepare x r).members).members? ["xid", "record"] =
      some [x.toJson, r.toJson] := hmembers
    simp [Entry.ofMembers?, kind, hprepare, Xid.ofJson?_toJson h.1, Record.ofJson?_toJson h.2]
  | resolve x =>
    have hresolve : (Value.ofFields (Entry.resolve x).members).members? ["xid"] =
      some [x.toJson] := hmembers
    simp [Entry.ofMembers?, kind, hresolve, Xid.ofJson?_toJson h]

/-- An entry has one JSON form, which gives it back. -/
theorem Entry.ofJson?_toJson {e : Entry} (h : e.Fits) : Entry.ofJson? e.toJson = some e := by
  have hop : "op" ∉ e.members.map (·.1) := by cases e <;> simp [members]
  have hkind : Json.onlyField? "op"
      ((("op", Value.ofString e.kind) :: e.members).map fun f => (some f.1, f.2)) =
      some (.ofString e.kind) := by
    rw [Json.onlyField?, List.map_cons, Json.fieldsNamed_cons, if_pos rfl,
      Json.fieldsNamed_eq_nil hop]
  have hrest : ((("op", Value.ofString e.kind) :: e.members).map
      fun f => ((some f.1, f.2) : Json.Text × Value)).filter (fun f => f.1 ≠ some "op") =
      e.members.map fun f => (some f.1, f.2) := by
    rw [List.map_cons, List.filter_cons_of_neg (by simp), List.filter_eq_self]
    intro f hf
    obtain ⟨g, hg, rfl⟩ := List.mem_map.1 hf
    refine decide_eq_true fun heq => hop ?_
    exact List.mem_map.2 ⟨g, hg, Option.some.inj heq⟩
  rw [toJson_eq, Value.ofFields, Entry.ofJson?, hkind]
  simp only [Option.bind_eq_bind, Option.bind_some]
  rw [hrest]
  exact ofMembers?_members h

/-! ## Texts -/

theorem Record.printable_toJson {r : Record} (h : r.Fits) (k : Nat) :
    Json.Printable (k + 2) r.toJson := by
  refine Json.printable_ofFields fun f hf => ?_
  simp only [List.mem_cons, List.not_mem_nil, or_false] at hf
  rcases hf with rfl | rfl | rfl
  · exact Json.printable_ofString _
  · exact Json.printable_ofNat h
  · exact Json.printable_ofBytes _

theorem Xid.printable_toJson {x : Xid} (h : x.Fits) (k : Nat) :
    Json.Printable (k + 2) x.toJson := by
  have habs : x.formatId.natAbs ≤ Json.maxUInt64 := by
    have hlow : -2147483648 ≤ x.formatId := h.1
    have hhigh : x.formatId ≤ 2147483647 := h.2
    rw [Json.maxUInt64]
    omega
  refine Json.printable_ofFields fun f hf => ?_
  simp only [List.mem_cons, List.not_mem_nil, or_false] at hf
  rcases hf with rfl | rfl | rfl
  · exact Json.printable_ofInt habs
  · exact Json.printable_ofBytes _
  · exact Json.printable_ofBytes _

theorem Entry.printable_toJson {e : Entry} (h : e.Fits) (k : Nat) :
    Json.Printable (k + 3) e.toJson := by
  rw [toJson_eq]
  refine Json.printable_ofFields fun f hf => ?_
  rcases List.mem_cons.1 hf with rfl | hf
  · exact Json.printable_ofString _
  cases e with
  | add r =>
    obtain rfl := List.mem_singleton.1 hf
    exact r.printable_toJson h k
  | prune a s =>
    simp only [members, List.mem_cons, List.not_mem_nil, or_false] at hf
    rcases hf with rfl | rfl
    · exact Json.printable_ofString _
    · exact Json.printable_ofNat h
  | prepare x r =>
    simp only [members, List.mem_cons, List.not_mem_nil, or_false] at hf
    rcases hf with rfl | rfl
    · exact x.printable_toJson h.1 k
    · exact r.printable_toJson h.2 k
  | resolve x =>
    obtain rfl := List.mem_singleton.1 hf
    exact x.printable_toJson h k

namespace Entry

variable {e : Entry} (h : e.Fits)

theorem print_eq (e : Entry) : ∃ cs, e.toJson.print = '\x7b' :: cs := ⟨_, by
  rw [toJson_eq]
  rfl⟩

/-- The text of an entry begins with a brace. -/
theorem text_eq_cons (e : Entry) : ∃ bs, e.text = 0x7B :: bs := by
  obtain ⟨cs, hcs⟩ := print_eq e
  exact ⟨Utf8.encode cs, by rw [text, hcs]; rfl⟩

include h

/-- The text of an entry is read in front of anything that is not part of a number. -/
theorem readValue_print {fuel : Nat} (hfuel : e.toJson.print.length ≤ fuel) {rest : List Char}
    (hrest : Json.EndsNumber rest) :
    Json.readValue true fuel Json.depthLimit (e.toJson.print ++ rest) = some (e.toJson, rest) :=
  Json.readValue_print (e.printable_toJson h 124) fuel rest hfuel hrest

/-- The text of an entry spells it, blanks after it aside. -/
theorem ofBytes?_append {blanks : List Char} (hblanks : Json.skipBlank blanks = [])
    (hend : Json.EndsNumber blanks) :
    ofBytes? (Utf8.encode (e.toJson.print ++ blanks)) = some e := by
  obtain ⟨cs, hcs⟩ := print_eq e
  have hskip : Json.skipBlank (e.toJson.print ++ blanks) = e.toJson.print ++ blanks := by
    rw [hcs]
    exact Json.skipBlank_of_not_blank (by decide) _
  have hfuel : e.toJson.print.length ≤ 2 * (e.toJson.print ++ blanks).length + 2 := by
    rw [List.length_append]
    omega
  have hread := e.readValue_print h hfuel hend
  have hparse : Json.parse true (e.toJson.print ++ blanks) = some e.toJson :=
    Json.parse_strict_eq_some_iff.2 ⟨blanks, by rw [hskip]; exact hread, hblanks⟩
  rw [ofBytes?, Utf8.decode_encode]
  simp only [Option.bind_eq_bind, Option.bind_some, hparse]
  exact ofJson?_toJson h

/-- The text of an entry spells it. -/
theorem ofBytes?_text : ofBytes? e.text = some e := by
  have htext : ofBytes? (Utf8.encode (e.toJson.print ++ [])) = some e :=
    ofBytes?_append h rfl Json.endsNumber_nil
  rwa [List.append_nil] at htext

/-- The line of an entry spells it. -/
theorem ofBytes?_line : ofBytes? e.line = some e := by
  have hline : ofBytes? (Utf8.encode (e.toJson.print ++ ['\n'])) = some e :=
    ofBytes?_append h rfl (Json.endsNumber_cons (by decide) [])
  rwa [Utf8.encode_append] at hline

/-- The text of an entry has no newline in it. -/
theorem newline_not_mem_text : newline ∉ e.text :=
  Utf8.newline_not_mem_encode (Json.newline_not_mem_print (e.printable_toJson h 0))

/-- No proper beginning of an entry's text spells an entry. -/
theorem ofBytes?_take {n : Nat} (hn : 0 < n) (hlt : n < e.text.length) :
    ofBytes? (e.text.take n) = none := by
  refine Option.eq_none_iff_forall_ne_some.2 fun e' he' => ?_
  obtain ⟨cs, hcs, hparsed⟩ := Option.bind_eq_some_iff.1 he'
  obtain ⟨v, hv, -⟩ := Option.bind_eq_some_iff.1 hparsed
  -- The rest of the text spells what is missing, which is not nothing.
  have hsplit : (Utf8.decode (e.text.drop n)).map (cs ++ ·) = some e.toJson.print := by
    rw [← Utf8.decode_append hcs, List.take_append_drop, text, Utf8.decode_encode]
  obtain ⟨more, hmore, hprint⟩ := Option.map_eq_some_iff.1 hsplit
  have hne : more ≠ [] := by
    rintro rfl
    have hdrop := congrArg List.length (Utf8.decode_eq_some_nil hmore)
    rw [List.length_drop, List.length_nil] at hdrop
    omega
  obtain ⟨tail, htail⟩ := print_eq e
  cases cs with
  | nil =>
    have htake := congrArg List.length (Utf8.decode_eq_some_nil hcs)
    rw [List.length_take, List.length_nil] at htake
    omega
  | cons c cs =>
    have hhead : c = '\x7b' := by
      rw [htail] at hprint
      exact (List.cons.inj hprint).1
    subst hhead
    have hread := e.readValue_print h (Nat.le_refl _) Json.endsNumber_nil
    rw [List.append_nil, ← hprint] at hread
    rw [Json.parse_eq_none_of_append hread hne] at hv
    cases hv

end Entry

end MessageRouting
