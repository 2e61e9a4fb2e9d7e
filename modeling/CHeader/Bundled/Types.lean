/- Parts that several bundled headers have, and the headers of types and operators. -/

namespace CHeader

namespace Bundled

/- Lines that count once. -/
def guarded (mark : String) (lines : List String) : List String :=
  [s!"#ifndef _{mark}_H_", s!"#define _{mark}_H_", ""] ++ lines ++ ["", "#endif"]

def defines (macros : List String) : List String := macros.map ("#define " ++ ·)

/- Whether the sizes of types are known, two in a line. -/
def neededLines (pairs : List (String × String)) (last : String) : List String :=
  ["#if !defined __CPP_INT_BITS || !defined __CPP_LONG_BITS \\"] ++
  pairs.map (fun (a, b) => s!"\t\t|| !defined __CPP_{a}_BITS || !defined __CPP_{b}_BITS \\") ++
  [last, "\t#error Missing macro definitions detected", "#endif"]

/- A type that is one of the whole numbers, the one with as many bits as an option says. -/
def typeLines (lead sign name option otherwise : String) : List String :=
  [("if", "int", "INT"), ("elif", "long", "LONG"), ("elif", "long long", "LONGLONG")].flatMap
    (fun (word, type, bits) =>
      [s!"{lead}#{word} __CPP_{bits}_BITS == __CPP_{option}_BITS",
       s!"{lead}\ttypedef {sign}{type} {name};"]) ++
  [s!"{lead}#{otherwise}", s!"{lead}\t#error Unsupported size for {name}", s!"{lead}#endif"]

def sizeLines : List String :=
  ["#ifndef __CPP_SIZE_DEFINED"] ++ typeLines "\t" "unsigned " "size_t" "SIZE" "else" ++
  ["\t#define __CPP_SIZE_DEFINED", "#endif"]

def wideCharLines : List String :=
  ["#ifndef __CPP_WCHAR_DEFINED"] ++
  typeLines "\t" "unsigned " "wchar_t" "WCHAR" "elif __CPP_WCHAR_BITS >= 0" ++
  ["\t#define __CPP_WCHAR_DEFINED", "#endif"]

/- The type of wide characters and of the end of a file. -/
def wideEndLines : List String :=
  ["#ifndef WEOF", "\t#if __CPP_INT_BITS == __CPP_WINT_BITS", "\t\ttypedef unsigned int wint_t;",
   "\t\t#define WEOF (-1U)", "\t#elif __CPP_LONG_BITS == __CPP_WINT_BITS",
   "\t\ttypedef unsigned long wint_t;", "\t\t#define WEOF (-1UL)",
   "\t#elif __CPP_LONGLONG_BITS == __CPP_WINT_BITS", "\t\ttypedef unsigned long long wint_t;",
   "\t\t#define WEOF (-1ULL)", "\t#else", "\t\t#error Unsupported size for wint_t", "\t#endif",
   "#endif"]

def nullLines : List String := ["#ifndef NULL", "#define NULL ((void *)0)", "#endif"]

/- Defined once, whichever header comes first. -/
def onceLines (mark line : String) : List String :=
  [s!"#ifndef __CPP_{mark}_DEFINED", s!"#define __CPP_{mark}_DEFINED", line, "#endif"]

def argumentsLines : List String := onceLines "VA_LIST" "typedef void * va_list;"

def fileLines : List String := onceLines "FILE" "typedef struct FILE FILE;"

def iso646Lines : List String :=
  guarded "ISO646" (defines ["and\t\t&&", "and_eq\t&=", "bitand\t&", "bitor\t|", "compl\t~",
   "not\t\t!", "not_eq\t!=", "or\t\t||", "or_eq\t|=", "xor\t\t^", "xor_eq\t^="])

def stdboolLines : List String :=
  ["#ifndef __bool_true_false_are_defined"] ++ defines ["__bool_true_false_are_defined 1",
   "bool _Bool", "true 1", "false 0"] ++ ["#endif"]

def stddefLines : List String :=
  ["#ifndef _STDDEF_H_", "#define _STDDEF_H_", ""] ++ neededLines [("LONGLONG", "PTRDIFF")]
   "\t\t|| !defined __CPP_SIZE_BITS || !defined __CPP_WCHAR_BITS" ++ ["", ""] ++ nullLines ++ ["",
   "#define offsetof(type, field) ((size_t)(&((type *)0)->field))", ""] ++
  typeLines "" "" "ptrdiff_t" "PTRDIFF" "else" ++ [""] ++ sizeLines ++ [""] ++ wideCharLines ++ ["",
   "", "#endif", ""]

/- The limits of a type with a number of bits, given the ending of a number of the type. -/
def rangeLines (start gap ending bits : String) : List String :=
  [s!"{start}_MIN{gap} (((1{ending} << ({bits}-2)) - 1) *-2 - 2)",
   s!"{start}_MAX{gap} (((1{ending} << ({bits}-2)) - 1) * 2 + 1)"]

def limitLines (lead name gap ending bits : String) : List String :=
  rangeLines s!"{lead}#define INT{name}" gap ending bits ++
  [s!"{lead}#define UINT{name}_MAX (((1U{ending} << ({bits}-2)) - 1) * 4 + 4)"]

/- The smallest type with a number of bits: the first that
  has as many, if none has just that number. -/
def leastLines (bits gap ending : String) : List String :=
  [s!"#ifndef __CPP_{bits}BIT"] ++
  [("if", "short", "SHORT", ""), ("elif", "int", "INT", ""), ("elif", "long", "LONG", "L"),
   ("elif", "long long", "LONGLONG", "LL")].flatMap (fun (word, type, name, ending) =>
      [s!"\t#{word} __CPP_{name}_BITS >= {bits}", s!"\t\ttypedef {type} int_least{bits}_t",
       s!"\t\ttypedef unsigned {type} uint_least{bits}_t;"] ++
      limitLines "\t\t" ("_LEAST" ++ bits) gap ending s!"__CPP_{name}_BITS") ++
  ["\t#else", s!"\t\t#error No suitable type for int_least{bits}_t", "\t#endif", "#else",
   s!"\ttypedef __CPP_{bits}BIT int{bits}_t;", s!"\ttypedef unsigned __CPP_{bits}BIT uint{bits}_t;",
   s!"\ttypedef __CPP_{bits}BIT int_least{bits}_t;",
   s!"\ttypedef unsigned __CPP_{bits}BIT uint_least{bits}_t;"] ++
  limitLines "\t" bits "" ending bits ++
  ["#endif"]

def fastLines (bits : String) : List String :=
  [s!"typedef int_least{bits}_t int_fast{bits}_t;",
   s!"typedef uint_least{bits}_t uint_fast{bits}_t;",
   s!"#define INT_FAST{bits}_MIN INT_LEAST{bits}_MIN",
   s!"#define INT_FAST{bits}_MAX INT_LEAST{bits}_MAX",
   s!"#define UINT_FAST{bits}_MAX UINT_LEAST{bits}_MAX"]

/- A type with a number of bits, and how its numbers are written. -/
def exactLines (lead bits type paste ending : String) : List String :=
  [s!"{lead}#define __CPP_{bits}BIT {type}", s!"{lead}#define INT{bits}_C(value) value{paste}",
   s!"{lead}#define UINT{bits}_C(value) value ## U{ending}"]

def exactChoice (option type paste ending : String) (choices : List String) : List String :=
  (choices.zip ("if" :: choices.map fun _ => "elif")).flatMap (fun (bits, word) =>
    s!"#{word} __CPP_{option}_BITS == {bits}" :: exactLines "\t" bits type paste ending) ++
  ["#endif", ""]

def stdintLines : List String :=
  guarded "STDINT" (neededLines [("LONGLONG", "SHORT"), ("INTPTR", "SIZE"), ("PTRDIFF", "ATOMIC")]
   "\t\t|| !defined __CPP_WCHAR_BITS || !defined __CPP_WINT_BITS" ++ ["", "",
   "/* This is one of many places that assume CHAR_BIT is 8 */"] ++
  exactLines "" "8" "char" "" "" ++ ["", "#if __CPP_LONGLONG_BITS == 64"] ++
  exactLines "" "64" "long long" " ## LL" "LL" ++ ["#endif", ""] ++
  exactChoice "SHORT" "short" "" "" ["16", "32"] ++ exactChoice "LONG" "long" " ## L" "L" ["32",
   "64"] ++ exactChoice "INT" "int" "" "" ["16", "32", "64"] ++ ["",
   "typedef signed __CPP_8BIT int8_t;", "typedef unsigned __CPP_8BIT uint8_t;",
   "typedef signed __CPP_8BIT int_least8_t;", "typedef unsigned __CPP_8BIT uint_least8_t;",
   "typedef signed __CPP_8BIT int_fast8_t;", "typedef unsigned __CPP_8BIT uint_fast8_t;", ""] ++
  rangeLines "#define INT8" "" "" "8" ++ defines ["UINT8_MAX (((1 << (8-2)) - 1) * 4 + 4)",
   "INT_LEAST8_MIN INT8_MIN", "INT_LEAST8_MAX INT8_MAX", "UINT_LEAST8_MAX UINT8_MAX",
   "INT_FAST8_MIN INT8_MIN", "INT_FAST8_MAX INT8_MAX", "UINT_FAST8_MAX UINT8_MAX"] ++ ["", ""] ++
  leastLines "16" " " "" ++ [""] ++ fastLines "16" ++ ["", ""] ++ leastLines "32" "" "L" ++ ["", ""]
   ++ fastLines "32" ++ ["", "", ""] ++ leastLines "64" "" "LL" ++ ["", ""] ++ fastLines "64" ++
  ["", "", "", "typedef long long intmax_t;", "typedef unsigned long long uintmax_t;"] ++
  rangeLines "#define INTMAX" "" "LL" "__CPP_LONGLONG_BITS" ++ ["#define UINTMAX_MAX (-1ULL)", "",
   "#define INTMAX_C(value) value ## LL", "#define UINTMAX_C(value) value ## ULL", "", "",
   "#if __CPP_INTPTR_BITS == __CPP_INT_BITS", "typedef int intptr_t;",
   "typedef unsigned int uintptr_t;", "#elif __CPP_INTPTR_BITS == __CPP_LONG_BITS",
   "typedef long intptr_t;", "typedef unsigned long uintptr_t;",
   "#elif __CPP_INTPTR_BITS == __CPP_SHORT_BITS", "typedef short intptr_t;",
   "typedef unsigned short uintptr_t;", "#elif __CPP_INTPTR_BITS == __CPP_LONGLONG_BITS",
   "typedef long long intptr_t;", "typedef unsigned long long uintptr_t;", "#else",
   "#error No suitable type for intptr_t", "#endif", ""] ++
  rangeLines "#define INTPTR" "" "LL" "__CPP_INTPTR_BITS" ++ ["#define UINTPTR_MAX (-1ULL)", "",
   "/* size_t is unsigned */", "#define SIZE_MAX (((1ULL << (__CPP_SIZE_BITS-2)) - 1) * 4 + 4)", "",
   "/* ptrdiff_t is signed */"] ++ rangeLines "#define PTRDIFF" "" "LL" "__CPP_PTRDIFF_BITS" ++ ["",
   "/* sig_atomic_t is signed */"] ++ rangeLines "#define SIG_ATOMIC" "" "LL" "__CPP_ATOMIC_BITS" ++
  ["", "#ifndef WCHAR_MIN", "/* wchar_t is unsigned */",
   "#define WCHAR_MAX (((1ULL << (__CPP_WCHAR_BITS-2)) - 1) * 4 + 4)", "#define WCHAR_MIN 0",
   "#endif", "", "/* wint_t is unsigned */",
   "#define WINT_MAX (((1ULL << (__CPP_WINT_BITS-2)) - 1) * 4 + 4)", "#define WINT_MIN 0"])

end Bundled

end CHeader
