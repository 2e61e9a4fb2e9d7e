import CHeader.Bundled.Types

/- The bundled headers of real numbers and their limits. -/

namespace CHeader

namespace Bundled

def group (kind : String) (names : List String) : List String :=
  names.map fun name => s!"__CPP_DECLARE_{kind}({name})"

def complexLines : List String :=
  guarded "COMPLEX" (["#define complex _Complex", "", "#define _Complex_I csqrtf(-1)",
   "#define I _Complex_I", "", "#define __CPP_DECLARE_GROUP(func) \\",
   "float func##f (float complex);  double func (double complex);  long double func##l (long double complex);",
   "", "#define __CPP_DECLARE_COMPLEX_GROUP(func) \\",
   "float complex func##f (float complex);  double complex func (double complex);  long double complex func##l (long double complex);",
   ""] ++ group "GROUP" ["creal", "cimag", "cabs", "carg"] ++ ["__CPP_DECLARE_COMPLEX_GROUP(conj)",
   "__CPP_DECLARE_GROUP(cproj)"] ++ group "COMPLEX_GROUP" ["cexp", "clog", "cpow", "csqrt", "csin",
   "ccos", "ctan", "casin", "cacos", "catan", "csinh", "ccosh", "ctanh", "casinh", "cacosh",
   "catanh"])

def fenvLines : List String :=
  guarded "FENV" (["typedef struct fenv_t fenv_t;", "typedef struct fexcept_t fexcept_t;", "",
   "int feclearexcept(int);", "int fegetenv(fenv_t *);", "int fegetexceptflag(fexcept_t *, int);",
   "int fegetround(void);", "int feholdexcept(fenv_t *);", "int feraiseexcept(int);",
   "int fesetexceptflag(const fexcept_t *, int);", "int fesetenv(const fenv_t *);",
   "int fesetround(int);", "int fetestexcept(int);", "int feupdateenv(const fenv_t *);", "",
   "#define FE_ALL_EXCEPT 0", ""] ++ defines ["FE_TONEAREST 0", "FE_DOWNWARD 4", "FE_UPWARD 8",
   "FE_TOWARDZERO 12"] ++ ["", "extern const fenv_t fe_dfl_env;", "#define FE_DFL_ENV fe_dfl_env",
   "", "/* The standard guarantees this header provides access to",
   "* #pragma STDC FENV_ACCESS (on or off)", "*/"])

def floatLines : List String :=
  guarded "FLOAT" (["/* If you need to guarantee these values match the system,",
   "* find the appropriate values to override this header", "*/", "#define FLT_RADIX 2",
   "#define FLT_ROUNDS 1", ""] ++ defines ["FLT_MANT_DIG 24", "DBL_MANT_DIG 53", "LDBL_MANT_DIG 64",
   "FLT_DIG 6", "DBL_DIG 15", "LDBL_DIG 18", "FLT_MIN_EXP (-125)", "DBL_MIN_EXP (-1021)",
   "LDBL_MIN_EXP (-16381)", "FLT_MIN_10_EXP (-37)", "DBL_MIN_10_EXP (-307)",
   "LDBL_MIN_10_EXP (-4931)", "FLT_MAX_EXP 38", "DBL_MAX_10_EXP 208", "LDBL_MAX_10_EXP 4932",
   "FLT_MAX 3.40282347e+38F", "DBL_MAX 1.7976931348623157e+308",
   "LDBL_MAX 1.18973149535723176502e+4932L", "FLT_EPSILON 1.19209290e-7F",
   "DBL_EPSILON 2.2204460492503131e-16", "LDBL_EPSILON 1.08420217248550443401e-19L",
   "FLT_MIN 1.17549435e-38F", "DBL_MIN 2.2250738585072014e-308",
   "LDBL_MIN 3.36210314311209350626e-4932L", "FLT_EVAL_METHOD 0", "DECIMAL_DIG 21"] ++ [""])

def limitsLines : List String :=
  guarded "LIMITS" (neededLines [("LONGLONG", "SHORT")] "\t\t|| !defined __CPP_CHAR_SIGNED" ++ ["",
   "/* These definitions require 2's complement arithmetic */"] ++ defines ["CHAR_BIT 8",
   "SCHAR_MIN\t(-128)", "SCHAR_MAX 127", "UCHAR_MAX 255",
   "CHAR_MIN (__CPP_CHAR_SIGNED ? SCHAR_MIN : 0 )",
   "CHAR_MAX (__CPP_CHAR_SIGNED ? SCHAR_MAX : UCHAR_MAX )", "MB_LEN_MAX 6"] ++ ["",
   "/* These definitions are convoluted to avoid integer promotion/overflow */"] ++
  rangeLines "#define SHRT" "" "" "__CPP_SHORT_BITS" ++
  ["#define USHRT_MAX (((1U << (__CPP_SHORT_BITS-2)) - 1) * 4 + 4)"] ++
  rangeLines "#define INT" "" "" "__CPP_INT_BITS" ++ ["#define UINT_MAX (-1U)"] ++
  rangeLines "#define LONG" "" "L" "__CPP_LONG_BITS" ++ ["#define ULONG_MAX (-1UL)"] ++
  rangeLines "#define LLONG" "" "LL" "__CPP_LONGLONG_BITS" ++ ["#define ULLONG_MAX (-1ULL)"])

/- The declarations of a function for each real type. The signs `@` and `#` stand for the type and
  for the ending of the name. -/
def threefold (declaration : String) : List String :=
  [("double", ""), ("float", "f"), ("long double", "l")].map fun (type, ending) =>
      String.ofList (declaration.toList.flatMap fun c =>
        if c = '@' then type.toList
        else if c = '#' then ending.toList
        else [c])

def mathLines : List String :=
  guarded "MATH" (["/* Assume FLT_EVAL_METHOD from float.h is 0 */", "typedef float float_t;",
   "typedef double double_t;", "", ""] ++ ["@ acos#(@);", "@ asin#(@);", "@ atan#(@);",
   "@ atan2#(@, @);", "@ cos#(@);", "@ sin#(@);", "@ tan#(@);", "@ acosh#(@);", "@ asinh#(@);",
   "@ atanh#(@);", "@ cosh#(@);", "@ sinh#(@);", "@ tanh#(@);", "@ exp#(@);", "@ exp2#(@);",
   "@ expm1#(@);", "@ frexp#(@, int *);", "int ilogb#(@);", "@ ldexp#(@, int);", "@ log#(@);",
   "@ log10#(@);", "@ log1p#(@);", "@ log2#(@);", "@ logb#(@);", "@ modf#(@, @ *);",
   "@ scalbn#(@, int);", "@ scalbln#(@, long int);", "@ cbrt#(@);", "@ fabs#(@);",
   "@ hypot#(@, @);", "@ pow#(@, @);", "@ sqrt#(@);", "@ erf#(@);", "@ erfc#(@);", "@ lgamma#(@);",
   "@ tgamma#(@);", "@ ceil#(@);", "@ floor#(@);", "@ nearbyint#(@);", "@ rint#(@);",
   "long int lrint#(@);", "long long int llrint#(@);", "@ round#(@);", "long int lround#(@);",
   "long long int llround#(@);", "@ trunc#(@);", "@ fmod#(@, @);", "@ remainder#(@, @);",
   "@ remquo#(@, @, int *);", "@ copysign#(@, @);", "@ nan#(const char *);",
   "@ nextafter#(@, @);"].flatMap threefold ++ ["double nexttoward(double, long double);",
   "float nexttowardf(float, long double);", "long double nexttowardl(long double, long double);"]
   ++ ["@ fdim#(@, @);", "@ fmax#(@, @);", "@ fmin#(@, @);",
   "@ fma#(@, @, @);"].flatMap threefold ++ ["", "", "",
   "#define isfinite(x) ((x) < 1e5000 && (x) > -1e5000 ? 1 : 0)",
   "#define isinf(x) ((x) == 1e5000 || (x) == -1e5000 ? 1 : 0)", "#define isnan(x) ((x) != (x))",
   "", "/* This isnormal gives wrong answers for denormal numbers",
   "* (for a number < machine epsilon at 1.0)", "*/", "#define isnormal(x) isfinite(x)", "",
   "/* This signbit gives wrong answers for NaNs and infinities */"] ++
  defines ["signbit(x) ((x) < 0)", "isgreater(x, y) (!isnan(x) && !isnan(y) && (x > y) )",
   "isgreaterequal(x, y) (!isnan(x) && !isnan(y) && (x >= y) )",
   "isless(x, y) (!isnan(x) && !isnan(y) && (x < y) )",
   "islessequal(x, y) (!isnan(x) && !isnan(y) && (x <= y) )",
   "islessgreater(x, y) (!isnan(x) && !isnan(y) && (x < y || x > y) )",
   "isunordered(x, y) (isnan(x) || isnan(y) )"] ++ ["", ""] ++ defines ["INFINITY 1e5000f",
   "NAN nanf(\"\")", "HUGE_VAL 1e5000", "HUGE_VALF 1e5000f", "HUGE_VALL 1e5000L"] ++ ["",
   "#define MATH_ERRNO 1", "#define MATH_ERREXCEPT 2", "#define math_errhandling 1", "",
   "/* The standard guarantees access to", "* #pragma STDC FP_CONTRACT \x7bon|off\x7d",
   "* when this file is included", "*/", "", "#define FP_ILOGB0 (-1)", "#define FP_ILOGBNAN (-1)",
   "", ""] ++ defines ["FP_INFINITE 0", "FP_NAN 1", "FP_ZERO 2", "FP_SUBNORMAL 3", "FP_NORMAL 4"] ++
  ["",
   "#define fpclassify(x) (!isfinite(x) ? FP_INFINITE : isnan(x) ? FP_NAN : x == 0 ? FP_ZERO : isnormal(x) ? FP_NORMAL : FP_SUBNORMAL)",
   ""])

end Bundled

end CHeader
