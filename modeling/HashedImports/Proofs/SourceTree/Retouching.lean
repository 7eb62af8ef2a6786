import HashedImports.Proofs.Source.Retouching
import HashedImports.Proofs.SourceTree.Rewriting

/-! What redirecting a tree does to the bytes of its files. A file is written anew only if its text
changes, and then all its lines end in line feeds, whatever they ended in before. -/

namespace HashedImports.SourceTree

open Source (Retouches imports retouches_redirect)
open Text (unifyLines)
open Text.Utf8 (encode decode)

variable {d : Disk} {f : String → String} {root p : Path} {accepts : String → Bool}

lemma encode_inj {cs ds : List Char} : encode cs = encode ds ↔ cs = ds := by
  refine ⟨fun h => ?_, congrArg _⟩
  have hd := congrArg decode h
  rw [Text.Utf8.decode_encode, Text.Utf8.decode_encode] at hd
  exact Except.ok.inj hd

lemma redirectedContent_eq {content : List UInt8} {cs : List Char}
    (hd : decode content = .ok cs) : redirectedContent f content =
      if encode (Source.redirect f (unifyLines cs)).text = encode (unifyLines cs) then content
      else encode (Source.redirect f (unifyLines cs)).text := by
  simp only [redirectedContent, hd, encode_inj]

lemma read_redirect {content : List UInt8} {results : List Result}
    (h : (redirect f root accepts d).result = .ok results) (hp : p ∈ visited d root accepts)
    (hr : d.read p = .ok content) :
    (redirect f root accepts d).disk.read p = .ok (redirectedContent f content) := by
  obtain ⟨hroot, hreadable⟩ := readable_of_redirect h
  obtain ⟨results', heffect⟩ := redirect_of_readable (f := f) hroot hreadable
  have hdisk := congrArg Prod.fst heffect
  change (redirect f root accepts d).disk = _ at hdisk
  obtain ⟨loc, hl⟩ := Disk.read_eq_ok_iff.mp hr
  have hleads : leadTo d (visited d root accepts) loc = true :=
    List.any_eq_true.mpr ⟨p, hp, by rw [hl]; exact decide_eq_true rfl⟩
  rw [hdisk, Disk.read_rewritten_of_locate _ hl, rewriting, if_pos hleads]

lemma retouches_iff {cs : List Char} :
    Retouches f 0 (imports (unifyLines cs)) (encode cs)
        (encode (Source.redirect f (unifyLines cs)).text) ↔ '\r' ∉ cs := by
  have hunified := Text.return_not_mem_unifyLines cs
  have hretouched := retouches_redirect hunified f
  constructor
  · intro h
    have hliterals : ∀ i ∈ imports (unifyLines cs),
        '\r' ∉ Source.literal i.quote i.path.toList :=
      fun i hi hm => hunified (Source.mem_of_mem_literal hi hm)
    have hcount := (h.count_return hliterals).symm.trans (hretouched.count_return hliterals)
    rw [Source.count_return_encode, Source.count_return_encode,
      List.count_eq_zero.mpr hunified] at hcount
    exact List.count_eq_zero.mp (by omega)
  · intro hr
    rwa [Text.unifyLines_of_not_mem hr] at hretouched ⊢

theorem redirecting_retouches (f : String → String) (d : Disk) (root : Path)
    (accepts : String → Bool) (results : List Result)
    (h : (redirect f root accepts d).result = .ok results) :
    ∀ p ∈ visited d root accepts, ∃ content cs new,
      d.read p = .ok content ∧ decode content = .ok cs ∧
      Retouches f 0 (imports (unifyLines cs)) (encode (unifyLines cs)) new ∧
      (redirect f root accepts d).disk.read p =
        .ok (if new = encode (unifyLines cs) then content else new) ∧
      (Retouches f 0 (imports (unifyLines cs)) content new ↔ '\r' ∉ cs) := by
  intro p hp
  cases ht : d.readText p with
  | error cause => exact ((readable_of_redirect h).2 p hp ⟨cause, ht⟩).elim
  | ok text =>
    obtain ⟨loc, content, cs, hl, hd, rfl⟩ := exists_content ht
    have hr : d.read p = .ok content := Disk.read_eq_ok_iff.mpr ⟨loc, hl⟩
    refine ⟨content, cs, _, hr, hd,
      retouches_redirect (Text.return_not_mem_unifyLines cs) f, ?_, ?_⟩
    · rw [read_redirect h hp hr, redirectedContent_eq hd]
    · rw [← Text.Utf8.encode_of_decode hd]
      exact retouches_iff

def oneFile (source : List Char) : Disk :=
  ⟨(FileTree.empty.put ["p"] .directory).put ["p", "a.go"] (.file (encode source)), ⟨[], 0⟩,
    default⟩

lemma visited_oneFile (source : List Char) :
    visited (oneFile source) ⟨.root, ["p"]⟩ isGoFile = [⟨.root, ["p", "a.go"]⟩] := by
  have hbelow : (oneFile source).filesBelow ⟨.root, ["p"]⟩ = [["a.go"]] :=
    List.mergeSort_singleton ["a.go"]
  rw [visited, hbelow]
  decide +kernel

lemma read_oneFile (source : List Char) :
    (oneFile source).read ⟨.root, ["p", "a.go"]⟩ = .ok (encode source) := rfl

lemma readText_oneFile {source : List Char} (hr : '\r' ∉ source) :
    (oneFile source).readText ⟨.root, ["p", "a.go"]⟩ = .ok source :=
  Disk.readText_of_encode (read_oneFile source) hr

lemma result_oneFile (f : String → String) {source : List Char} (hr : '\r' ∉ source) :
    (redirect f ⟨.root, ["p"]⟩ isGoFile (oneFile source)).result =
      .ok [(stage ⟨.root, ["p", "a.go"]⟩ source (Source.redirect f source)).result] := by
  have hroot : (oneFile source).isDirectory ⟨.root, ["p"]⟩ = .ok true := rfl
  have hplan : planned (oneFile source) f ⟨.root, ["p"]⟩ isGoFile =
      .ok [stage ⟨.root, ["p", "a.go"]⟩ source (Source.redirect f source)] := by
    rw [planned, hroot]
    dsimp only
    rw [visited_oneFile, staged, readText_oneFile hr]
    rfl
  exact congrArg Prod.snd (redirect_of_planned hplan)

def returningSource : List Char :=
  "import \"a\"\r\n".toList

lemma imports_returningSource :
    imports (unifyLines returningSource) = [⟨⟨7, 10⟩, '"', "a"⟩] := by
  decide +kernel

lemma redirect_returningSource :
    (redirect (fun _ => "b") ⟨.root, ["p"]⟩ isGoFile (oneFile returningSource)).result =
      .ok [⟨⟨.root, ["p", "a.go"]⟩, 1, true⟩] := by
  decide +kernel

theorem returning_file_retouched :
    let after := (redirect (fun _ => "b") ⟨.root, ["p"]⟩ isGoFile (oneFile returningSource)).disk
    ∃ new, Retouches (fun _ => "b") 0 (imports (unifyLines returningSource))
        (encode (unifyLines returningSource)) new ∧
      after.read ⟨.root, ["p", "a.go"]⟩ = .ok
        (if new = encode (unifyLines returningSource) then encode returningSource else new) ∧
      ¬ Retouches (fun _ => "b") 0 (imports (unifyLines returningSource))
        (encode returningSource) new := by
  obtain ⟨content, cs, new, hr, hd, hretouched, hafter, hiff⟩ := redirecting_retouches
    (fun _ => "b") (oneFile returningSource) ⟨.root, ["p"]⟩ isGoFile _ redirect_returningSource
    ⟨.root, ["p", "a.go"]⟩ (by rw [visited_oneFile]; exact List.mem_singleton_self _)
  obtain rfl := Except.ok.inj ((read_oneFile _).symm.trans hr)
  obtain rfl := Except.ok.inj ((Text.Utf8.decode_encode _).symm.trans hd)
  exact ⟨new, hretouched, hafter, fun hn => hiff.mp hn (by decide)⟩

theorem carriage_return_lost :
    let before := oneFile returningSource
    let after := (redirect (fun _ => "b") ⟨.root, ["p"]⟩ isGoFile before).disk
    before.read ⟨.root, ["p", "a.go"]⟩ = .ok (encode returningSource) ∧
      after.read ⟨.root, ["p", "a.go"]⟩ = .ok (encode "import \"b\"\n".toList) ∧
      ¬ Retouches (fun _ => "b") 0 (imports (unifyLines returningSource))
        (encode returningSource) (encode "import \"b\"\n".toList) := by
  refine ⟨read_oneFile _, by decide +kernel, fun h => ?_⟩
  rw [imports_returningSource] at h
  have hcount := h.count_return (by decide)
  revert hcount
  decide

end HashedImports.SourceTree
