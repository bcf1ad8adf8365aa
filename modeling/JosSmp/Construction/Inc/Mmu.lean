import JosSmp.Construction.Machine.Word

/-!
This file models the macros of `inc/mmu.h`: the parts of a linear address, and the segment descriptors of the
assembler and of C.
-/

namespace JosSmp.Mmu

def ptxshift : UInt32 := 12
def pdxshift : UInt32 := 22
def pgsize : UInt32 := 4096
def nptentries : UInt32 := 1024
def ptsize : UInt32 := pgsize * nptentries

def ppn (la : UInt32) : UInt32 := la >>> ptxshift

def pdx (la : UInt32) : UInt32 := (la >>> pdxshift) &&& 0x3FF

def ptx (la : UInt32) : UInt32 := (la >>> ptxshift) &&& 0x3FF

def pgoff (la : UInt32) : UInt32 := la &&& 0xFFF

def pgaddr (d t o : UInt32) : UInt32 := d <<< pdxshift ||| t <<< ptxshift ||| o

def staX : UInt32 := 0x8
def staW : UInt32 := 0x2
def staR : UInt32 := 0x2

/-- The assembler emits the low byte of a `.word` first. -/
def word (v : UInt32) : List UInt8 := [v.toUInt8, (v >>> 8).toUInt8]

def long (v : UInt32) : List UInt8 := word v ++ word (v >>> 16)

def segNull : List UInt8 := word 0 ++ word 0 ++ [0, 0, 0, 0]

/-- The macro `SEG` of the assembler. -/
def segAsm (type base lim : UInt32) : List UInt8 :=
  word ((lim >>> 12) &&& 0xffff) ++ word (base &&& 0xffff) ++
    [((base >>> 16) &&& 0xff).toUInt8, ((0x90 : UInt32) ||| type).toUInt8,
      ((0xC0 : UInt32) ||| ((lim >>> 28) &&& 0xf)).toUInt8, ((base >>> 24) &&& 0xff).toUInt8]

/-- The bit fields of a segment descriptor, in the order of the source. -/
structure Segdesc where
  sdLim150 : BitVec 16
  sdBase150 : BitVec 16
  sdBase2316 : BitVec 8
  sdType : BitVec 4
  sdS : BitVec 1
  sdDpl : BitVec 2
  sdP : BitVec 1
  sdLim1916 : BitVec 4
  sdAvl : BitVec 1
  sdRsv1 : BitVec 1
  sdDb : BitVec 1
  sdG : BitVec 1
  sdBase3124 : BitVec 8

/-- The macro `SEG` of C; a value that is assigned to a bit field loses its high bits. -/
def seg (type base lim dpl : UInt32) : Segdesc where
  sdLim150 := ((lim >>> 12) &&& 0xffff).toBitVec.setWidth 16
  sdBase150 := (base &&& 0xffff).toBitVec.setWidth 16
  sdBase2316 := ((base >>> 16) &&& 0xff).toBitVec.setWidth 8
  sdType := type.toBitVec.setWidth 4
  sdS := 1
  sdDpl := dpl.toBitVec.setWidth 2
  sdP := 1
  sdLim1916 := (lim >>> 28).toBitVec.setWidth 4
  sdAvl := 0
  sdRsv1 := 0
  sdDb := 1
  sdG := 1
  sdBase3124 := (base >>> 24).toBitVec.setWidth 8

/-- The target packs bit fields from the lowest bit of a descriptor up. -/
def Segdesc.layout (d : Segdesc) : BitVec 64 :=
  d.sdBase3124 ++ d.sdG ++ d.sdDb ++ d.sdRsv1 ++ d.sdAvl ++ d.sdLim1916 ++ d.sdP ++ d.sdDpl ++ d.sdS ++ d.sdType ++
    d.sdBase2316 ++ d.sdBase150 ++ d.sdLim150

/-- The eight bytes of a descriptor in memory. -/
def Segdesc.bytes (d : Segdesc) : List UInt8 :=
  (List.range 8).map fun i => UInt8.ofBitVec (d.layout.extractLsb' (8 * i) 8)

end JosSmp.Mmu
