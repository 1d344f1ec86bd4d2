import AndroidAnalysis.Cpp.String

/-!
# `hook_jni/methods_json.cpp`

The functions of the two tables the library calls the virtual machine through,
as the program lists them.  `jniAllMethods` is `jni_all_methods` of
`methods_info.cpp`, one list for each family, and `jniJvmMethodInfo` lists the
functions of `JavaVM`.  The index is the slot in the table of function pointers.
The field `va_args_index` is left out, since nothing reads it, and `origin_call`
belongs to the state of a run.
-/

namespace HookJni

open Cpp

/-- The types in the lists. -/
inductive JniType
  | envPtr
  | jobject
  | jfieldID
  | jboolean
  | jbyte
  | jchar
  | jshort
  | jint
  | jlong
  | jfloat
  | jdouble
  | jclass
  | jstring
  | jsize
  | jbooleanPtr
  | jcharPtr
  | charPtr
  | jarray
  | jobjectArray
  | jbooleanArray
  | jbyteArray
  | jbytePtr
  | jcharArray
  | jshortArray
  | jshortPtr
  | jintArray
  | jintPtr
  | jlongArray
  | jlongPtr
  | jfloatArray
  | jfloatPtr
  | jdoubleArray
  | jdoublePtr
  | void
  | voidPtr
  | jweak
  | jmethodID
  | jobjectRefType
  | nativeMethodPtr
  | vmPtrPtr
  | jthrowable
  | varargs
  | vaList
  | jvaluePtr
  | vmPtr
  | envPtrPtr
  | voidPtrPtr
deriving DecidableEq, Repr

/-- The text of a type, as the lists have it. -/
def JniType.text : JniType → Str
  | .envPtr => "JNIEnv*".toList
  | .jobject => "jobject".toList
  | .jfieldID => "jfieldID".toList
  | .jboolean => "jboolean".toList
  | .jbyte => "jbyte".toList
  | .jchar => "jchar".toList
  | .jshort => "jshort".toList
  | .jint => "jint".toList
  | .jlong => "jlong".toList
  | .jfloat => "jfloat".toList
  | .jdouble => "jdouble".toList
  | .jclass => "jclass".toList
  | .jstring => "jstring".toList
  | .jsize => "jsize".toList
  | .jbooleanPtr => "jboolean*".toList
  | .jcharPtr => "jchar*".toList
  | .charPtr => "char*".toList
  | .jarray => "jarray".toList
  | .jobjectArray => "jobjectArray".toList
  | .jbooleanArray => "jbooleanArray".toList
  | .jbyteArray => "jbyteArray".toList
  | .jbytePtr => "jbyte*".toList
  | .jcharArray => "jcharArray".toList
  | .jshortArray => "jshortArray".toList
  | .jshortPtr => "jshort*".toList
  | .jintArray => "jintArray".toList
  | .jintPtr => "jint*".toList
  | .jlongArray => "jlongArray".toList
  | .jlongPtr => "jlong*".toList
  | .jfloatArray => "jfloatArray".toList
  | .jfloatPtr => "jfloat*".toList
  | .jdoubleArray => "jdoubleArray".toList
  | .jdoublePtr => "jdouble*".toList
  | .void => "void".toList
  | .voidPtr => "void*".toList
  | .jweak => "jweak".toList
  | .jmethodID => "jmethodID".toList
  | .jobjectRefType => "jobjectRefType".toList
  | .nativeMethodPtr => "JNINativeMethod*".toList
  | .vmPtrPtr => "JavaVM**".toList
  | .jthrowable => "jthrowable".toList
  | .varargs => "...".toList
  | .vaList => "va_list".toList
  | .jvaluePtr => "jvalue*".toList
  | .vmPtr => "JavaVM*".toList
  | .envPtrPtr => "JNIEnv**".toList
  | .voidPtrPtr => "void**".toList

/-- `method_info_t`. -/
structure MethodInfo where
  index : Nat
  name : String
  retType : JniType
  argsType : List JniType
deriving DecidableEq

/-! ## The functions of `JNIEnv` -/

/-- `jni_get_value_method_info`. -/
def jniGetValueMethodInfo : List MethodInfo := [
  ⟨95, "GetObjectField", .jobject, [.envPtr, .jobject, .jfieldID]⟩,
  ⟨96, "GetBooleanField", .jboolean, [.envPtr, .jobject, .jfieldID]⟩,
  ⟨97, "GetByteField", .jbyte, [.envPtr, .jobject, .jfieldID]⟩,
  ⟨98, "GetCharField", .jchar, [.envPtr, .jobject, .jfieldID]⟩,
  ⟨99, "GetShortField", .jshort, [.envPtr, .jobject, .jfieldID]⟩,
  ⟨100, "GetIntField", .jint, [.envPtr, .jobject, .jfieldID]⟩,
  ⟨101, "GetLongField", .jlong, [.envPtr, .jobject, .jfieldID]⟩,
  ⟨102, "GetFloatField", .jfloat, [.envPtr, .jobject, .jfieldID]⟩,
  ⟨103, "GetDoubleField", .jdouble, [.envPtr, .jobject, .jfieldID]⟩,
  ⟨145, "GetStaticObjectField", .jobject, [.envPtr, .jclass, .jfieldID]⟩,
  ⟨146, "GetStaticBooleanField", .jboolean, [.envPtr, .jclass, .jfieldID]⟩,
  ⟨147, "GetStaticByteField", .jbyte, [.envPtr, .jclass, .jfieldID]⟩,
  ⟨148, "GetStaticCharField", .jchar, [.envPtr, .jclass, .jfieldID]⟩,
  ⟨149, "GetStaticShortField", .jshort, [.envPtr, .jclass, .jfieldID]⟩,
  ⟨150, "GetStaticIntField", .jint, [.envPtr, .jclass, .jfieldID]⟩,
  ⟨151, "GetStaticLongField", .jlong, [.envPtr, .jclass, .jfieldID]⟩,
  ⟨152, "GetStaticFloatField", .jfloat, [.envPtr, .jclass, .jfieldID]⟩,
  ⟨153, "GetStaticDoubleField", .jdouble, [.envPtr, .jclass, .jfieldID]⟩,
  ⟨164, "GetStringLength", .jsize, [.envPtr, .jstring]⟩,
  ⟨165, "GetStringChars", .jcharPtr, [.envPtr, .jstring, .jbooleanPtr]⟩,
  ⟨168, "GetStringUTFLength", .jsize, [.envPtr, .jstring]⟩,
  ⟨169, "GetStringUTFChars", .charPtr, [.envPtr, .jstring, .jbooleanPtr]⟩,
  ⟨171, "GetArrayLength", .jsize, [.envPtr, .jarray]⟩,
  ⟨173, "GetObjectArrayElement", .jobject, [.envPtr, .jobjectArray, .jsize]⟩,
  ⟨183, "GetBooleanArrayElements", .jbooleanPtr, [.envPtr, .jbooleanArray, .jbooleanPtr]⟩,
  ⟨184, "GetByteArrayElements", .jbytePtr, [.envPtr, .jbyteArray, .jbooleanPtr]⟩,
  ⟨185, "GetCharArrayElements", .jcharPtr, [.envPtr, .jcharArray, .jbooleanPtr]⟩,
  ⟨186, "GetShortArrayElements", .jshortPtr, [.envPtr, .jshortArray, .jbooleanPtr]⟩,
  ⟨187, "GetIntArrayElements", .jintPtr, [.envPtr, .jintArray, .jbooleanPtr]⟩,
  ⟨188, "GetLongArrayElements", .jlongPtr, [.envPtr, .jlongArray, .jbooleanPtr]⟩,
  ⟨189, "GetFloatArrayElements", .jfloatPtr, [.envPtr, .jfloatArray, .jbooleanPtr]⟩,
  ⟨190, "GetDoubleArrayElements", .jdoublePtr, [.envPtr, .jdoubleArray, .jbooleanPtr]⟩,
  ⟨199, "GetBooleanArrayRegion", .void, [.envPtr, .jbooleanArray, .jsize, .jsize, .jbooleanPtr]⟩,
  ⟨200, "GetByteArrayRegion", .void, [.envPtr, .jbyteArray, .jsize, .jsize, .jbytePtr]⟩,
  ⟨201, "GetCharArrayRegion", .void, [.envPtr, .jcharArray, .jsize, .jsize, .jcharPtr]⟩,
  ⟨202, "GetShortArrayRegion", .void, [.envPtr, .jshortArray, .jsize, .jsize, .jshortPtr]⟩,
  ⟨203, "GetIntArrayRegion", .void, [.envPtr, .jintArray, .jsize, .jsize, .jintPtr]⟩,
  ⟨204, "GetLongArrayRegion", .void, [.envPtr, .jlongArray, .jsize, .jsize, .jlongPtr]⟩,
  ⟨205, "GetFloatArrayRegion", .void, [.envPtr, .jfloatArray, .jsize, .jsize, .jfloatPtr]⟩,
  ⟨206, "GetDoubleArrayRegion", .void, [.envPtr, .jdoubleArray, .jsize, .jsize, .jdoublePtr]⟩,
  ⟨220, "GetStringRegion", .void, [.envPtr, .jstring, .jsize, .jsize, .jcharPtr]⟩,
  ⟨221, "GetStringUTFRegion", .void, [.envPtr, .jstring, .jsize, .jsize, .charPtr]⟩,
  ⟨222, "GetPrimitiveArrayCritical", .voidPtr, [.envPtr, .jarray, .jbooleanPtr]⟩,
  ⟨224, "GetStringCritical", .jcharPtr, [.envPtr, .jstring, .jbooleanPtr]⟩,
  ⟨230, "GetDirectBufferAddress", .voidPtr, [.envPtr, .jobject]⟩,
  ⟨231, "GetDirectBufferCapacity", .jlong, [.envPtr, .jobject]⟩]

/-- `jni_set_value_method_info`. -/
def jniSetValueMethodInfo : List MethodInfo := [
  ⟨104, "SetObjectField", .void, [.envPtr, .jobject, .jfieldID, .jobject]⟩,
  ⟨105, "SetBooleanField", .void, [.envPtr, .jobject, .jfieldID, .jboolean]⟩,
  ⟨106, "SetByteField", .void, [.envPtr, .jobject, .jfieldID, .jbyte]⟩,
  ⟨107, "SetCharField", .void, [.envPtr, .jobject, .jfieldID, .jchar]⟩,
  ⟨108, "SetShortField", .void, [.envPtr, .jobject, .jfieldID, .jshort]⟩,
  ⟨109, "SetIntField", .void, [.envPtr, .jobject, .jfieldID, .jint]⟩,
  ⟨110, "SetLongField", .void, [.envPtr, .jobject, .jfieldID, .jlong]⟩,
  ⟨111, "SetFloatField", .void, [.envPtr, .jobject, .jfieldID, .jfloat]⟩,
  ⟨112, "SetDoubleField", .void, [.envPtr, .jobject, .jfieldID, .jdouble]⟩,
  ⟨154, "SetStaticObjectField", .void, [.envPtr, .jclass, .jfieldID, .jobject]⟩,
  ⟨155, "SetStaticBooleanField", .void, [.envPtr, .jclass, .jfieldID, .jboolean]⟩,
  ⟨156, "SetStaticByteField", .void, [.envPtr, .jclass, .jfieldID, .jbyte]⟩,
  ⟨157, "SetStaticCharField", .void, [.envPtr, .jclass, .jfieldID, .jchar]⟩,
  ⟨158, "SetStaticShortField", .void, [.envPtr, .jclass, .jfieldID, .jshort]⟩,
  ⟨159, "SetStaticIntField", .void, [.envPtr, .jclass, .jfieldID, .jint]⟩,
  ⟨160, "SetStaticLongField", .void, [.envPtr, .jclass, .jfieldID, .jlong]⟩,
  ⟨161, "SetStaticFloatField", .void, [.envPtr, .jclass, .jfieldID, .jfloat]⟩,
  ⟨162, "SetStaticDoubleField", .void, [.envPtr, .jclass, .jfieldID, .jdouble]⟩,
  ⟨174, "SetObjectArrayElement", .void, [.envPtr, .jobjectArray, .jsize, .jobject]⟩,
  ⟨207, "SetBooleanArrayRegion", .void, [.envPtr, .jbooleanArray, .jsize, .jsize, .jbooleanPtr]⟩,
  ⟨208, "SetByteArrayRegion", .void, [.envPtr, .jbyteArray, .jsize, .jsize, .jbytePtr]⟩,
  ⟨209, "SetCharArrayRegion", .void, [.envPtr, .jcharArray, .jsize, .jsize, .jcharPtr]⟩,
  ⟨210, "SetShortArrayRegion", .void, [.envPtr, .jshortArray, .jsize, .jsize, .jshortPtr]⟩,
  ⟨211, "SetIntArrayRegion", .void, [.envPtr, .jintArray, .jsize, .jsize, .jintPtr]⟩,
  ⟨212, "SetLongArrayRegion", .void, [.envPtr, .jlongArray, .jsize, .jsize, .jlongPtr]⟩,
  ⟨213, "SetFloatArrayRegion", .void, [.envPtr, .jfloatArray, .jsize, .jsize, .jfloatPtr]⟩,
  ⟨214, "SetDoubleArrayRegion", .void, [.envPtr, .jdoubleArray, .jsize, .jsize, .jdoublePtr]⟩]

/-- `jni_release_method_info`. -/
def jniReleaseMethodInfo : List MethodInfo := [
  ⟨22, "DeleteGlobalRef", .void, [.envPtr, .jobject]⟩,
  ⟨23, "DeleteLocalRef", .void, [.envPtr, .jobject]⟩,
  ⟨166, "ReleaseStringChars", .void, [.envPtr, .jstring, .jcharPtr]⟩,
  ⟨170, "ReleaseStringUTFChars", .void, [.envPtr, .jstring, .charPtr]⟩,
  ⟨191, "ReleaseBooleanArrayElements", .void, [.envPtr, .jbooleanArray, .jbooleanPtr, .jint]⟩,
  ⟨192, "ReleaseByteArrayElements", .void, [.envPtr, .jbyteArray, .jbytePtr, .jint]⟩,
  ⟨193, "ReleaseCharArrayElements", .void, [.envPtr, .jcharArray, .jcharPtr, .jint]⟩,
  ⟨194, "ReleaseShortArrayElements", .void, [.envPtr, .jshortArray, .jshortPtr, .jint]⟩,
  ⟨195, "ReleaseIntArrayElements", .void, [.envPtr, .jintArray, .jintPtr, .jint]⟩,
  ⟨196, "ReleaseLongArrayElements", .void, [.envPtr, .jlongArray, .jlongPtr, .jint]⟩,
  ⟨197, "ReleaseFloatArrayElements", .void, [.envPtr, .jfloatArray, .jfloatPtr, .jint]⟩,
  ⟨198, "ReleaseDoubleArrayElements", .void, [.envPtr, .jdoubleArray, .jdoublePtr, .jint]⟩,
  ⟨223, "ReleasePrimitiveArrayCritical", .void, [.envPtr, .jarray, .voidPtr, .jint]⟩,
  ⟨225, "ReleaseStringCritical", .void, [.envPtr, .jstring, .jcharPtr]⟩,
  ⟨227, "DeleteWeakGlobalRef", .void, [.envPtr, .jweak]⟩]

/-- `jni_new_method_info`. -/
def jniNewMethodInfo : List MethodInfo := [
  ⟨21, "NewGlobalRef", .jobject, [.envPtr, .jobject]⟩,
  ⟨25, "NewLocalRef", .jobject, [.envPtr, .jobject]⟩,
  ⟨27, "AllocObject", .jobject, [.envPtr, .jclass]⟩,
  ⟨163, "NewString", .jstring, [.envPtr, .jcharPtr, .jsize]⟩,
  ⟨167, "NewStringUTF", .jstring, [.envPtr, .charPtr]⟩,
  ⟨172, "NewObjectArray", .jobjectArray, [.envPtr, .jsize, .jclass, .jobject]⟩,
  ⟨175, "NewBooleanArray", .jbooleanArray, [.envPtr, .jsize]⟩,
  ⟨176, "NewByteArray", .jbyteArray, [.envPtr, .jsize]⟩,
  ⟨177, "NewCharArray", .jcharArray, [.envPtr, .jsize]⟩,
  ⟨178, "NewShortArray", .jshortArray, [.envPtr, .jsize]⟩,
  ⟨179, "NewIntArray", .jintArray, [.envPtr, .jsize]⟩,
  ⟨180, "NewLongArray", .jlongArray, [.envPtr, .jsize]⟩,
  ⟨181, "NewFloatArray", .jfloatArray, [.envPtr, .jsize]⟩,
  ⟨182, "NewDoubleArray", .jdoubleArray, [.envPtr, .jsize]⟩,
  ⟨226, "NewWeakGlobalRef", .jweak, [.envPtr, .jobject]⟩,
  ⟨229, "NewDirectByteBuffer", .jobject, [.envPtr, .voidPtr, .jlong]⟩]

/-- `jni_class_method_info`. -/
def jniClassMethodInfo : List MethodInfo := [
  ⟨5, "DefineClass", .jclass, [.envPtr, .charPtr, .jobject, .jbytePtr, .jsize]⟩,
  ⟨6, "FindClass", .jclass, [.envPtr, .charPtr]⟩,
  ⟨7, "FromReflectedMethod", .jmethodID, [.envPtr, .jobject]⟩,
  ⟨8, "FromReflectedField", .jfieldID, [.envPtr, .jobject]⟩,
  ⟨9, "ToReflectedMethod", .jobject, [.envPtr, .jclass, .jmethodID, .jboolean]⟩,
  ⟨10, "GetSuperclass", .jclass, [.envPtr, .jclass]⟩,
  ⟨12, "ToReflectedField", .jobject, [.envPtr, .jclass, .jfieldID, .jboolean]⟩,
  ⟨31, "GetObjectClass", .jclass, [.envPtr, .jobject]⟩,
  ⟨33, "GetMethodID", .jmethodID, [.envPtr, .jclass, .charPtr, .charPtr]⟩,
  ⟨94, "GetFieldID", .jfieldID, [.envPtr, .jclass, .charPtr, .charPtr]⟩,
  ⟨113, "GetStaticMethodID", .jmethodID, [.envPtr, .jclass, .charPtr, .charPtr]⟩,
  ⟨144, "GetStaticFieldID", .jfieldID, [.envPtr, .jclass, .charPtr, .charPtr]⟩,
  ⟨232, "GetObjectRefType", .jobjectRefType, [.envPtr, .jobject]⟩]

/-- `jni_jni_method_info`. -/
def jniJniMethodInfo : List MethodInfo := [
  ⟨215, "RegisterNatives", .jint, [.envPtr, .jclass, .nativeMethodPtr, .jint]⟩,
  ⟨216, "UnregisterNatives", .jint, [.envPtr, .jclass]⟩,
  ⟨219, "GetJavaVM", .jint, [.envPtr, .vmPtrPtr]⟩]

/-- `jni_except_method_info`. -/
def jniExceptMethodInfo : List MethodInfo := [
  ⟨13, "Throw", .jint, [.envPtr, .jthrowable]⟩,
  ⟨14, "ThrowNew", .jint, [.envPtr, .jclass, .charPtr]⟩,
  ⟨15, "ExceptionOccurred", .jthrowable, [.envPtr]⟩,
  ⟨16, "ExceptionDescribe", .void, [.envPtr]⟩,
  ⟨17, "ExceptionClear", .void, [.envPtr]⟩,
  ⟨18, "FatalError", .void, [.envPtr, .charPtr]⟩,
  ⟨228, "ExceptionCheck", .jboolean, [.envPtr]⟩]

/-- `jni_other_method_info`. -/
def jniOtherMethodInfo : List MethodInfo := [
  ⟨4, "GetVersion", .jint, [.envPtr]⟩,
  ⟨11, "IsAssignableFrom", .jboolean, [.envPtr, .jclass, .jclass]⟩,
  ⟨19, "PushLocalFrame", .jint, [.envPtr, .jint]⟩,
  ⟨20, "PopLocalFrame", .jobject, [.envPtr, .jobject]⟩,
  ⟨24, "IsSameObject", .jboolean, [.envPtr, .jobject, .jobject]⟩,
  ⟨26, "EnsureLocalCapacity", .jint, [.envPtr, .jint]⟩,
  ⟨32, "IsInstanceOf", .jboolean, [.envPtr, .jobject, .jclass]⟩,
  ⟨217, "MonitorEnter", .jint, [.envPtr, .jobject]⟩,
  ⟨218, "MonitorExit", .jint, [.envPtr, .jobject]⟩]

/-- `jni_call_method_info`. -/
def jniCallMethodInfo : List MethodInfo := [
  ⟨28, "NewObject", .jobject, [.envPtr, .jclass, .jmethodID, .varargs]⟩,
  ⟨29, "NewObjectV", .jobject, [.envPtr, .jclass, .jmethodID, .vaList]⟩,
  ⟨30, "NewObjectA", .jobject, [.envPtr, .jclass, .jmethodID, .jvaluePtr]⟩,
  ⟨34, "CallObjectMethod", .jobject, [.envPtr, .jobject, .jmethodID, .varargs]⟩,
  ⟨35, "CallObjectMethodV", .jobject, [.envPtr, .jobject, .jmethodID, .vaList]⟩,
  ⟨36, "CallObjectMethodA", .jobject, [.envPtr, .jobject, .jmethodID, .jvaluePtr]⟩,
  ⟨37, "CallBooleanMethod", .jboolean, [.envPtr, .jobject, .jmethodID, .varargs]⟩,
  ⟨38, "CallBooleanMethodV", .jboolean, [.envPtr, .jobject, .jmethodID, .vaList]⟩,
  ⟨39, "CallBooleanMethodA", .jboolean, [.envPtr, .jobject, .jmethodID, .jvaluePtr]⟩,
  ⟨40, "CallByteMethod", .jbyte, [.envPtr, .jobject, .jmethodID, .varargs]⟩,
  ⟨41, "CallByteMethodV", .jbyte, [.envPtr, .jobject, .jmethodID, .vaList]⟩,
  ⟨42, "CallByteMethodA", .jbyte, [.envPtr, .jobject, .jmethodID, .jvaluePtr]⟩,
  ⟨43, "CallCharMethod", .jchar, [.envPtr, .jobject, .jmethodID, .varargs]⟩,
  ⟨44, "CallCharMethodV", .jchar, [.envPtr, .jobject, .jmethodID, .vaList]⟩,
  ⟨45, "CallCharMethodA", .jchar, [.envPtr, .jobject, .jmethodID, .jvaluePtr]⟩,
  ⟨46, "CallShortMethod", .jshort, [.envPtr, .jobject, .jmethodID, .varargs]⟩,
  ⟨47, "CallShortMethodV", .jshort, [.envPtr, .jobject, .jmethodID, .vaList]⟩,
  ⟨48, "CallShortMethodA", .jshort, [.envPtr, .jobject, .jmethodID, .jvaluePtr]⟩,
  ⟨49, "CallIntMethod", .jint, [.envPtr, .jobject, .jmethodID, .varargs]⟩,
  ⟨50, "CallIntMethodV", .jint, [.envPtr, .jobject, .jmethodID, .vaList]⟩,
  ⟨51, "CallIntMethodA", .jint, [.envPtr, .jobject, .jmethodID, .jvaluePtr]⟩,
  ⟨52, "CallLongMethod", .jlong, [.envPtr, .jobject, .jmethodID, .varargs]⟩,
  ⟨53, "CallLongMethodV", .jlong, [.envPtr, .jobject, .jmethodID, .vaList]⟩,
  ⟨54, "CallLongMethodA", .jlong, [.envPtr, .jobject, .jmethodID, .jvaluePtr]⟩,
  ⟨55, "CallFloatMethod", .jfloat, [.envPtr, .jobject, .jmethodID, .varargs]⟩,
  ⟨56, "CallFloatMethodV", .jfloat, [.envPtr, .jobject, .jmethodID, .vaList]⟩,
  ⟨57, "CallFloatMethodA", .jfloat, [.envPtr, .jobject, .jmethodID, .jvaluePtr]⟩,
  ⟨58, "CallDoubleMethod", .jdouble, [.envPtr, .jobject, .jmethodID, .varargs]⟩,
  ⟨59, "CallDoubleMethodV", .jdouble, [.envPtr, .jobject, .jmethodID, .vaList]⟩,
  ⟨60, "CallDoubleMethodA", .jdouble, [.envPtr, .jobject, .jmethodID, .jvaluePtr]⟩,
  ⟨61, "CallVoidMethod", .void, [.envPtr, .jobject, .jmethodID, .varargs]⟩,
  ⟨62, "CallVoidMethodV", .void, [.envPtr, .jobject, .jmethodID, .vaList]⟩,
  ⟨63, "CallVoidMethodA", .void, [.envPtr, .jobject, .jmethodID, .jvaluePtr]⟩,
  ⟨64, "CallNonvirtualObjectMethod", .jobject, [.envPtr, .jobject, .jclass, .jmethodID, .varargs]⟩,
  ⟨65, "CallNonvirtualObjectMethodV", .jobject, [.envPtr, .jobject, .jclass, .jmethodID, .vaList]⟩,
  ⟨66, "CallNonvirtualObjectMethodA", .jobject, [.envPtr, .jobject, .jclass, .jmethodID, .jvaluePtr]⟩,
  ⟨67, "CallNonvirtualBooleanMethod", .jboolean, [.envPtr, .jobject, .jclass, .jmethodID, .varargs]⟩,
  ⟨68, "CallNonvirtualBooleanMethodV", .jboolean, [.envPtr, .jobject, .jclass, .jmethodID, .vaList]⟩,
  ⟨69, "CallNonvirtualBooleanMethodA", .jboolean, [.envPtr, .jobject, .jclass, .jmethodID, .jvaluePtr]⟩,
  ⟨70, "CallNonvirtualByteMethod", .jbyte, [.envPtr, .jobject, .jclass, .jmethodID, .varargs]⟩,
  ⟨71, "CallNonvirtualByteMethodV", .jbyte, [.envPtr, .jobject, .jclass, .jmethodID, .vaList]⟩,
  ⟨72, "CallNonvirtualByteMethodA", .jbyte, [.envPtr, .jobject, .jclass, .jmethodID, .jvaluePtr]⟩,
  ⟨73, "CallNonvirtualCharMethod", .jchar, [.envPtr, .jobject, .jclass, .jmethodID, .varargs]⟩,
  ⟨74, "CallNonvirtualCharMethodV", .jchar, [.envPtr, .jobject, .jclass, .jmethodID, .vaList]⟩,
  ⟨75, "CallNonvirtualCharMethodA", .jchar, [.envPtr, .jobject, .jclass, .jmethodID, .jvaluePtr]⟩,
  ⟨76, "CallNonvirtualShortMethod", .jshort, [.envPtr, .jobject, .jclass, .jmethodID, .varargs]⟩,
  ⟨77, "CallNonvirtualShortMethodV", .jshort, [.envPtr, .jobject, .jclass, .jmethodID, .vaList]⟩,
  ⟨78, "CallNonvirtualShortMethodA", .jshort, [.envPtr, .jobject, .jclass, .jmethodID, .jvaluePtr]⟩,
  ⟨79, "CallNonvirtualIntMethod", .jint, [.envPtr, .jobject, .jclass, .jmethodID, .varargs]⟩,
  ⟨80, "CallNonvirtualIntMethodV", .jint, [.envPtr, .jobject, .jclass, .jmethodID, .vaList]⟩,
  ⟨81, "CallNonvirtualIntMethodA", .jint, [.envPtr, .jobject, .jclass, .jmethodID, .jvaluePtr]⟩,
  ⟨82, "CallNonvirtualLongMethod", .jlong, [.envPtr, .jobject, .jclass, .jmethodID, .varargs]⟩,
  ⟨83, "CallNonvirtualLongMethodV", .jlong, [.envPtr, .jobject, .jclass, .jmethodID, .vaList]⟩,
  ⟨84, "CallNonvirtualLongMethodA", .jlong, [.envPtr, .jobject, .jclass, .jmethodID, .jvaluePtr]⟩,
  ⟨85, "CallNonvirtualFloatMethod", .jfloat, [.envPtr, .jobject, .jclass, .jmethodID, .varargs]⟩,
  ⟨86, "CallNonvirtualFloatMethodV", .jfloat, [.envPtr, .jobject, .jclass, .jmethodID, .vaList]⟩,
  ⟨87, "CallNonvirtualFloatMethodA", .jfloat, [.envPtr, .jobject, .jclass, .jmethodID, .jvaluePtr]⟩,
  ⟨88, "CallNonvirtualDoubleMethod", .jdouble, [.envPtr, .jobject, .jclass, .jmethodID, .varargs]⟩,
  ⟨89, "CallNonvirtualDoubleMethodV", .jdouble, [.envPtr, .jobject, .jclass, .jmethodID, .vaList]⟩,
  ⟨90, "CallNonvirtualDoubleMethodA", .jdouble, [.envPtr, .jobject, .jclass, .jmethodID, .jvaluePtr]⟩,
  ⟨91, "CallNonvirtualVoidMethod", .void, [.envPtr, .jobject, .jclass, .jmethodID, .varargs]⟩,
  ⟨92, "CallNonvirtualVoidMethodV", .void, [.envPtr, .jobject, .jclass, .jmethodID, .vaList]⟩,
  ⟨93, "CallNonvirtualVoidMethodA", .void, [.envPtr, .jobject, .jclass, .jmethodID, .jvaluePtr]⟩,
  ⟨114, "CallStaticObjectMethod", .jobject, [.envPtr, .jclass, .jmethodID, .varargs]⟩,
  ⟨115, "CallStaticObjectMethodV", .jobject, [.envPtr, .jclass, .jmethodID, .vaList]⟩,
  ⟨116, "CallStaticObjectMethodA", .jobject, [.envPtr, .jclass, .jmethodID, .jvaluePtr]⟩,
  ⟨117, "CallStaticBooleanMethod", .jboolean, [.envPtr, .jclass, .jmethodID, .varargs]⟩,
  ⟨118, "CallStaticBooleanMethodV", .jboolean, [.envPtr, .jclass, .jmethodID, .vaList]⟩,
  ⟨119, "CallStaticBooleanMethodA", .jboolean, [.envPtr, .jclass, .jmethodID, .jvaluePtr]⟩,
  ⟨120, "CallStaticByteMethod", .jbyte, [.envPtr, .jclass, .jmethodID, .varargs]⟩,
  ⟨121, "CallStaticByteMethodV", .jbyte, [.envPtr, .jclass, .jmethodID, .vaList]⟩,
  ⟨122, "CallStaticByteMethodA", .jbyte, [.envPtr, .jclass, .jmethodID, .jvaluePtr]⟩,
  ⟨123, "CallStaticCharMethod", .jchar, [.envPtr, .jclass, .jmethodID, .varargs]⟩,
  ⟨124, "CallStaticCharMethodV", .jchar, [.envPtr, .jclass, .jmethodID, .vaList]⟩,
  ⟨125, "CallStaticCharMethodA", .jchar, [.envPtr, .jclass, .jmethodID, .jvaluePtr]⟩,
  ⟨126, "CallStaticShortMethod", .jshort, [.envPtr, .jclass, .jmethodID, .varargs]⟩,
  ⟨127, "CallStaticShortMethodV", .jshort, [.envPtr, .jclass, .jmethodID, .vaList]⟩,
  ⟨128, "CallStaticShortMethodA", .jshort, [.envPtr, .jclass, .jmethodID, .jvaluePtr]⟩,
  ⟨129, "CallStaticIntMethod", .jint, [.envPtr, .jclass, .jmethodID, .varargs]⟩,
  ⟨130, "CallStaticIntMethodV", .jint, [.envPtr, .jclass, .jmethodID, .vaList]⟩,
  ⟨131, "CallStaticIntMethodA", .jint, [.envPtr, .jclass, .jmethodID, .jvaluePtr]⟩,
  ⟨132, "CallStaticLongMethod", .jlong, [.envPtr, .jclass, .jmethodID, .varargs]⟩,
  ⟨133, "CallStaticLongMethodV", .jlong, [.envPtr, .jclass, .jmethodID, .vaList]⟩,
  ⟨134, "CallStaticLongMethodA", .jlong, [.envPtr, .jclass, .jmethodID, .jvaluePtr]⟩,
  ⟨135, "CallStaticFloatMethod", .jfloat, [.envPtr, .jclass, .jmethodID, .varargs]⟩,
  ⟨136, "CallStaticFloatMethodV", .jfloat, [.envPtr, .jclass, .jmethodID, .vaList]⟩,
  ⟨137, "CallStaticFloatMethodA", .jfloat, [.envPtr, .jclass, .jmethodID, .jvaluePtr]⟩,
  ⟨138, "CallStaticDoubleMethod", .jdouble, [.envPtr, .jclass, .jmethodID, .varargs]⟩,
  ⟨139, "CallStaticDoubleMethodV", .jdouble, [.envPtr, .jclass, .jmethodID, .vaList]⟩,
  ⟨140, "CallStaticDoubleMethodA", .jdouble, [.envPtr, .jclass, .jmethodID, .jvaluePtr]⟩,
  ⟨141, "CallStaticVoidMethod", .void, [.envPtr, .jclass, .jmethodID, .varargs]⟩,
  ⟨142, "CallStaticVoidMethodV", .void, [.envPtr, .jclass, .jmethodID, .vaList]⟩,
  ⟨143, "CallStaticVoidMethodA", .void, [.envPtr, .jclass, .jmethodID, .jvaluePtr]⟩]

/-- `jni_all_methods`. -/
def jniAllMethods : List (List MethodInfo) := [
  jniGetValueMethodInfo,
  jniSetValueMethodInfo,
  jniReleaseMethodInfo,
  jniNewMethodInfo,
  jniClassMethodInfo,
  jniJniMethodInfo,
  jniExceptMethodInfo,
  jniOtherMethodInfo,
  jniCallMethodInfo]

/-! ## The functions of `JavaVM` -/

/-- `jni_jvm_method_info`. -/
def jniJvmMethodInfo : List MethodInfo := [
  ⟨3, "DestroyJavaVM", .jint, [.vmPtr]⟩,
  ⟨4, "AttachCurrentThread", .jint, [.vmPtr, .envPtrPtr, .voidPtr]⟩,
  ⟨5, "DetachCurrentThread", .jint, [.vmPtr]⟩,
  ⟨6, "GetEnv", .jint, [.vmPtr, .voidPtrPtr, .jint]⟩,
  ⟨7, "AttachCurrentThreadAsDaemon", .jint, [.vmPtr, .envPtrPtr, .voidPtr]⟩]

end HookJni
